import PdaNetClient.Datagram

/-!
# The answer of `check_dhcp`

The bytes that `check_dhcp` stores, in their order, as offsets from the block of 500 bytes
that it allocates. The options are placed with `response + sizeof(struct dhcp_packet)`,
where `response` points to a packet and not to a byte: they land 240 packets behind the
block, and the 500 bytes that are sent end in zeros.
-/
namespace PdaNetClient.Dhcp

open Datagram

set_option autoImplicit false

/-! ## Stores -/

abbrev Heap := Nat → UInt8

def storesAt : Nat → Bytes → List (Nat × UInt8)
  | _, [] => []
  | off, b :: rest => (off, b) :: storesAt (off + 1) rest

def stored (heap : Heap) : List (Nat × UInt8) → Heap
  | [] => heap
  | s :: rest => stored (fun i => if i = s.1 then s.2 else heap i) rest

theorem stored_append (heap : Heap) (xs ys : List (Nat × UInt8)) :
    stored heap (xs ++ ys) = stored (stored heap xs) ys := by
  induction xs generalizing heap with
  | nil => rfl
  | cons s rest ih => exact ih _

theorem stored_untouched {heap : Heap} {stores : List (Nat × UInt8)} {i : Nat}
    (h : ∀ s ∈ stores, s.1 ≠ i) :
    stored heap stores i = heap i := by
  induction stores generalizing heap with
  | nil => rfl
  | cons s rest ih =>
    rw [stored, ih fun t ht => h t (List.mem_cons_of_mem s ht)]
    exact if_neg (h s List.mem_cons_self).symm

theorem mem_storesAt {off : Nat} {bytes : Bytes} {s : Nat × UInt8} (h : s ∈ storesAt off bytes) :
    off ≤ s.1 ∧ s.1 < off + bytes.length := by
  induction bytes generalizing off with
  | nil => cases h
  | cons b rest ih =>
    rw [List.length_cons]
    rcases List.mem_cons.mp h with rfl | hrest
    · omega
    · have := ih hrest
      omega

theorem stored_storesAt (heap : Heap) {off : Nat} {bytes : Bytes} {i : Nat} (h : off ≤ i)
    (hi : i < off + bytes.length) :
    stored heap (storesAt off bytes) i = bytes.getD (i - off) 0 := by
  induction bytes generalizing heap off with
  | nil => simp at hi; omega
  | cons b rest ih =>
    rw [List.length_cons] at hi
    rw [storesAt, stored]
    by_cases heq : off = i
    · subst heq
      rw [stored_untouched fun s hs => by have := mem_storesAt hs; omega, if_pos rfl, Nat.sub_self]
      rfl
    · rw [ih _ (by omega) (by omega), show i - off = i - (off + 1) + 1 by omega]
      rfl

/-! ## The function -/

/-- `request->siaddr == 0` -/
def noServer (request : Bytes) : Prop := (request.drop 20).take 4 = [0, 0, 0, 0]

instance (request : Bytes) : Decidable (noServer request) := inferInstanceAs (Decidable (_ = _))

/-- The options with the message type `t`; the lease time is stored as a native `uint32_t`. -/
def dhcpOptions (t : UInt8) : Bytes :=
  [53, 1, t] ++ [1, 4, 255, 255, 255, 0] ++ [3, 4, 10, 1, 10, 1] ++ [51, 4, 0x10, 0x0E, 0, 0] ++
    [54, 4, 10, 1, 10, 1] ++ [6, 4, 8, 8, 8, 8] ++ [255]

/-- The assignments to the fields, behind the copy of the request. -/
def headerStores (request : Bytes) : List (Nat × UInt8) :=
  storesAt 0 [if noServer request then 2 else 4] ++ storesAt 8 [0, 0] ++ storesAt 10 [0, 0] ++
    storesAt 12 [0, 0, 0, 0] ++
    storesAt 16 [10, 1, 10, 2] ++ storesAt 20 [10, 1, 10, 1] ++ storesAt 24 [0, 0, 0, 0]

/-- `response + sizeof(struct dhcp_packet)`, in bytes. -/
def optionsAt : Nat := dhcpPacketSize * dhcpPacketSize

/-- Every byte that `check_dhcp` stores for a request. -/
def dhcpStores (request : Bytes) : List (Nat × UInt8) :=
  storesAt 0 (request.take dhcpPacketSize) ++ headerStores request ++
    storesAt optionsAt (dhcpOptions (if noServer request then 2 else 5))

/-- `calloc(500, 1)`, and the heap behind the block. -/
def calloc (after : Heap) : Heap := fun i => if i < 500 then 0 else after (i - 500)

/-- The bytes passed to `write_udp`. -/
def dhcpReply (request : Bytes) (after : Heap) : Bytes :=
  (List.range 500).map (stored (calloc after) (dhcpStores request))

/-! ## What is asked of the answer -/

/-- The options up to the end option, padding left out. -/
def walkOptions : Bytes → Option (List (UInt8 × Bytes))
  | [] => none
  | 0 :: rest => walkOptions rest
  | 255 :: _ => some []
  | [_] => none
  | code :: len :: rest =>
    if len.toNat ≤ rest.length then (walkOptions (rest.drop len.toNat)).map
      ((code, rest.take len.toNat) :: ·) else none
termination_by options => options.length
decreasing_by
  · exact Nat.lt_succ_self _
  · rw [List.length_drop, List.length_cons, List.length_cons]
    omega

def StoresInside (request : Bytes) : Prop := ∀ s ∈ dhcpStores request, s.1 < 500

/-- A BOOTREPLY with the `xid` and the `chaddr` of the request. -/
structure HeaderRight (request : Bytes) (after : Heap) : Prop where
  opcode : (dhcpReply request after).getD 0 0 = 2
  xid : ∀ i, 4 ≤ i → i < 8 → (dhcpReply request after).getD i 0 = request.getD i 0
  chaddr : ∀ i, 28 ≤ i → i < 44 → (dhcpReply request after).getD i 0 = request.getD i 0

/-- The options behind the header: one message type, one lease of 3600 seconds in network order, and
the subnet, router, server and DNS options. -/
def OptionsRight (request : Bytes) (after : Heap) : Prop :=
  ∃ options, walkOptions ((dhcpReply request after).drop dhcpPacketSize) = some options ∧
    (options.filter (·.1 = 53)).length = 1 ∧ options.filter (·.1 = 51) =
      [(51, [0, 0, 0x0E, 0x10])] ∧
    ∀ code ∈ [1, 3, 54, 6], ∃ value, (code, value) ∈ options

structure ReplyLayout (request : Bytes) (after : Heap) : Prop where
  inside : StoresInside request
  header : HeaderRight request after
  options : OptionsRight request after

/-! ## What is sent -/

theorem length_dhcpReply (request : Bytes) (after : Heap) :
    (dhcpReply request after).length = 500 := by
  rw [dhcpReply, List.length_map, List.length_range]

theorem dhcpReply_getD (request : Bytes) (after : Heap) {i : Nat} (hi : i < 500) :
    (dhcpReply request after).getD i 0 = stored (calloc after) (dhcpStores request) i := by
  rw [List.getD_eq_getElem?_getD, dhcpReply, List.getElem?_map, List.getElem?_range hi]
  rfl

/-- The options touch nothing in front of them. -/
theorem before_options (t : UInt8) {i : Nat} (hi : i < 500) :
    ∀ s ∈ storesAt optionsAt (dhcpOptions t), s.1 ≠ i := by
  intro s hs
  have hle := (mem_storesAt hs).1
  simp only [optionsAt, dhcpPacketSize] at hle
  omega

/-- The fields that are assigned lie in the bytes 0 and 8 to 27. -/
theorem headerStores_range {request : Bytes} {s : Nat × UInt8} (hs : s ∈ headerStores request) :
    s.1 = 0 ∨ 8 ≤ s.1 ∧ s.1 < 28 := by
  simp only [headerStores, List.mem_append] at hs
  rcases hs with (((((hs | hs) | hs) | hs) | hs) | hs) | hs <;>
    have hrange :=
      mem_storesAt hs <;> simp only [List.length_cons, List.length_nil] at hrange <;> omega

/-- A field that is not assigned is that of the request. -/
theorem reply_copied {request : Bytes} (h : dhcpPacketSize ≤ request.length) (after : Heap)
    {i : Nat} (hi : i < 240) (hfield : i ≠ 0 ∧ (i < 8 ∨ 28 ≤ i)) :
    (dhcpReply request after).getD i 0 = request.getD i 0 := by
  have hfields : ∀ s ∈ headerStores request, s.1 ≠ i :=
    fun s hs => by have := headerStores_range hs; omega
  rw [dhcpPacketSize] at h
  rw [dhcpReply_getD _ _ (by omega), dhcpStores, stored_append,
    stored_untouched (before_options _ (by omega)), stored_append, stored_untouched hfields,
    stored_storesAt _ (Nat.zero_le i) (by simp [dhcpPacketSize]; omega)]
  simp [dhcpPacketSize, hi]

theorem reply_opcode (request : Bytes) (after : Heap) :
    (dhcpReply request after).getD 0 0 = if noServer request then 2 else 4 := by
  have hlater : ∀ s ∈ storesAt 8 [0, 0] ++ storesAt 10 [0, 0] ++ storesAt 12 [0, 0, 0, 0] ++
      storesAt 16 [10, 1, 10, 2] ++ storesAt 20 [10, 1, 10, 1] ++ storesAt 24 [0, 0, 0, 0],
      s.1 ≠ 0 := by decide
  have hsplit : headerStores request = storesAt 0 [if noServer request then 2 else 4] ++
      (storesAt 8 [0, 0] ++ storesAt 10 [0, 0] ++ storesAt 12 [0, 0, 0, 0] ++
        storesAt 16 [10, 1, 10, 2] ++ storesAt 20 [10, 1, 10, 1] ++ storesAt 24 [0, 0, 0, 0]) := by
    simp only [headerStores, List.append_assoc]
  rw [dhcpReply_getD _ _ (by decide), dhcpStores, stored_append,
    stored_untouched (before_options _ (by decide)), stored_append, hsplit, stored_append,
    stored_untouched hlater, storesAt, stored]
  rfl

/-- Behind the header the block is as it was allocated. -/
theorem reply_tail (request : Bytes) (after : Heap) :
    (dhcpReply request after).drop dhcpPacketSize = List.replicate 260 0 := by
  apply List.ext_getElem
  · rw [List.length_drop, length_dhcpReply, List.length_replicate]
    rfl
  · intro i hi hi'
    rw [List.length_replicate] at hi'
    have hheader : ∀ s ∈ storesAt 0 (request.take dhcpPacketSize) ++ headerStores request,
        s.1 ≠ dhcpPacketSize + i := by
      intro s hs
      rw [dhcpPacketSize]
      rcases List.mem_append.mp hs with hs | hs
      · have hrange := mem_storesAt hs
        rw [List.length_take, dhcpPacketSize] at hrange
        omega
      · have hrange := headerStores_range hs
        omega
    simp only [dhcpReply, List.getElem_drop, List.getElem_map, List.getElem_range,
      List.getElem_replicate]
    rw [dhcpStores, stored_append,
      stored_untouched (before_options _ (by rw [dhcpPacketSize]; omega)), stored_untouched hheader,
      calloc, if_pos (by rw [dhcpPacketSize]; omega)]

theorem walkOptions_zeros (n : Nat) : walkOptions (List.replicate n 0) = none := by
  induction n with
  | zero => rw [List.replicate_zero, walkOptions]
  | succ n ih => rw [List.replicate_succ, walkOptions, ih]

/-- The options are well formed where they stand; only the lease time is in the wrong order. -/
theorem walk_dhcpOptions (t : UInt8) : walkOptions (dhcpOptions t) =
    some [(53, [t]), (1, [255, 255, 255, 0]), (3, [10, 1, 10, 1]), (51, [0x10, 0x0E, 0, 0]),
      (54, [10, 1, 10, 1]), (6, [8, 8, 8, 8])] := by
  simp [dhcpOptions, walkOptions]

theorem headerRight_iff {request : Bytes} (h : dhcpPacketSize ≤ request.length) (after : Heap) :
    HeaderRight request after ↔ noServer request := by
  have hopcode := reply_opcode request after
  constructor
  · intro hright
    have htwo := hright.opcode
    rw [hopcode] at htwo
    by_contra hserver
    rw [if_neg hserver] at htwo
    cases htwo
  · intro hserver
    rw [if_pos hserver] at hopcode
    exact ⟨hopcode, fun i hi hi' => reply_copied h after (by omega) (by omega),
      fun i hi hi' => reply_copied h after (by omega) (by omega)⟩

/-- The first option is the store that proves it. -/
theorem not_storesInside (request : Bytes) : ¬ StoresInside request := by
  intro hinside
  have hmem : (optionsAt, 53) ∈ dhcpStores request := List.mem_append_right _ List.mem_cons_self
  have hlt : optionsAt < 500 := hinside _ hmem
  exact absurd hlt (by decide)

/-- No answer has the layout: the options are outside of the block, and the bytes behind its header
end nowhere. The header is right in the answer to a request that names no server. -/
theorem dhcpReply_layout (request : Bytes) (after : Heap) (h : isDhcpRequest request) :
    ¬ ReplyLayout request after ∧ ¬ StoresInside request ∧ ¬ OptionsRight request after ∧
      (HeaderRight request after ↔ noServer request) := by
  have hinside := not_storesInside request
  have hoptions : ¬ OptionsRight request after := by
    intro ⟨options, hwalk, _⟩
    rw [reply_tail, walkOptions_zeros] at hwalk
    cases hwalk
  exact ⟨fun hlayout => hinside hlayout.inside, hinside, hoptions, headerRight_iff h.1.1 after⟩

/-- A discover message. -/
def discover : Bytes :=
  [1, 1, 6, 0, 1, 2, 3, 4] ++ List.replicate 228 0 ++ dhcpMagic ++ [53, 1, 1, 255]

/-- The first option of its answer is stored at 57600, behind a block of 500 bytes. -/
theorem dhcpReply_outside : isDhcpRequest discover ∧ (57600, 53) ∈ dhcpStores discover ∧
    ¬ ReplyLayout discover fun _ => 0 := by
  have hinside := not_storesInside discover
  exact ⟨by decide +kernel, by decide +kernel, fun hlayout => hinside hlayout.inside⟩

theorem dhcpReply_discover : isDhcpRequest discover ∧ ¬ ReplyLayout discover fun _ => 0 := by
  have hrequest : isDhcpRequest discover := by decide +kernel
  exact ⟨hrequest, (dhcpReply_layout discover (fun _ => 0) hrequest).1⟩

end PdaNetClient.Dhcp
