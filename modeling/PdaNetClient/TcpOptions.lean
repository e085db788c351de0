import PdaNetClient.TcpEncode

/-!
# TCP options of a SYN

The loop of `handle_tcp` over the option area. Both bytes of an option are read before its
kind is looked at, and the length byte is the stride; neither is compared with the number
of bytes that are left.
-/
namespace PdaNetClient.Ip

open Reading
open Http (Memory memoryOf)
open Tcp (getDefaultMss writeTcp)

set_option autoImplicit false

/-- `mss` and `ws` -/
structure Options where
  mss : Nat
  ws : Nat
  deriving DecidableEq, Repr

/-- The value of an MSS or a window-scale option. -/
def readOption (kind len : UInt8) (options : Nat) (o : Options) : Read Options :=
  if kind = 2 ∧ len = 4 then do
    let mss ← be16 (options + 2)
    pure { o with mss := mss }
  else if kind = 3 ∧ len = 3 then do
    let ws ← u8 (options + 2)
    pure { o with ws := ws }
  else pure o

/-- `while (optlen > 0)`; without a result the loop is still running after as many turns. -/
def optionLoop : Nat → Int → Nat → Options → Read (Option Options)
  | turns, optlen, options, o =>
    if 0 < optlen then
      match turns with
      | 0 => pure none
      | turns + 1 => do
        let kind ← look options
        let len ← look (options + 1)
        if kind = 0 then pure (some o)
        else do
          let o ← readOption kind len options o
          if kind = 1 then optionLoop turns (optlen - 1) (options + 1) o
          else optionLoop turns (optlen - (len.toNat : Nat)) (options + len.toNat) o
    else pure (some o)

/-- The options of a SYN of IP version `version`, in an area of `tcpoptlen` bytes at
`tcpoptions`. -/
def decodeOptions (version turns tcpoptlen tcpoptions : Nat) : Read (Option Options) :=
  optionLoop turns tcpoptlen tcpoptions ⟨getDefaultMss version, 0⟩

/-! ## One turn -/

section

variable {mem : Memory} {e : Nat}

/-- What lies between `i` and the end of the area. -/
def Inside (i e k : Nat) : Prop := i ≤ k ∧ k < e

instance (i e k : Nat) : Decidable (Inside i e k) := inferInstanceAs (Decidable (_ ∧ _))

/-- The bytes of an option that are looked at, its first two aside, lie before the end. -/
def ValueInside (mem : Memory) (e off : Nat) : Prop :=
  (mem off = 2 ∧ mem (off + 1) = 4 → off + 3 < e) ∧ (mem off = 3 ∧ mem (off + 1) = 3 → off + 2 < e)

theorem loop_done (turns : Nat) {off : Nat} (o : Options) (h : e ≤ off) :
    optionLoop turns ((e : Int) - off) off o = pure (some o) := by
  have hoff : ¬ 0 < (e : Int) - off := by omega
  unfold optionLoop
  exact if_neg hoff

theorem loop_stuck {off : Nat} (o : Options) (h : off < e) :
    optionLoop 0 ((e : Int) - off) off o = pure none := by
  have hoff : 0 < (e : Int) - off := by omega
  unfold optionLoop
  exact if_pos hoff

theorem readOption_within (P : Nat → Prop) (off : Nat) (o : Options) :
    (readOption (mem off) (mem (off + 1)) off o).Within P mem ↔
      (mem off = 2 ∧ mem (off + 1) = 4 → P (off + 2) ∧ P (off + 3)) ∧
        (mem off = 3 ∧ mem (off + 1) = 3 → P (off + 2)) := by
  unfold readOption
  by_cases h2 : mem off = 2 ∧ mem (off + 1) = 4
  · simp [h2]
  · by_cases h3 : mem off = 3 ∧ mem (off + 1) = 3
    · simp [h3]
    · simp [h2, h3]

/-- What the loop makes of an option that is not the end of the list. -/
def afterOption (mem : Memory) (off : Nat) (o : Options) : Options :=
  (readOption (mem off) (mem (off + 1)) off o).value mem

theorem afterOption_eq (mem : Memory) (off : Nat) (o : Options) :
    afterOption mem off o =
      if mem off = 2 ∧ mem (off + 1) =
        4 then { o with mss := 256 * (mem (off + 2)).toNat + (mem (off + 3)).toNat }
      else if mem off = 3 ∧ mem (off + 1) = 3 then { o with ws := (mem (off + 2)).toNat }
      else o := by
  unfold afterOption readOption
  rw [value_ite, value_ite]
  rfl

/-- Where the next option is looked for. -/
def nextOption (mem : Memory) (off : Nat) : Nat :=
  if mem off = 1 then off + 1 else off + (mem (off + 1)).toNat

theorem loop_turn (turns : Nat) {off : Nat} (o : Options) (h : off < e) :
    optionLoop (turns + 1) ((e : Int) - off) off o = (do
      let kind ← look off
      let len ← look (off + 1)
      if kind = 0 then pure (some o)
      else do
        let o ← readOption kind len off o
        if kind = 1 then optionLoop turns ((e : Int) - off - 1) (off + 1) o
        else optionLoop turns ((e : Int) - off - (len.toNat : Nat)) (off + len.toNat) o) := by
  have hoff : 0 < (e : Int) - off := by omega
  rw [optionLoop]
  exact if_pos hoff

theorem loop_end (turns : Nat) {off : Nat} (o : Options) (h : off < e) (hkind : mem off = 0) :
    (optionLoop (turns + 1) ((e : Int) - off) off o).value mem = some o ∧
      ∀ P, (optionLoop (turns + 1) ((e : Int) - off) off o).Within P mem ↔ P off ∧ P (off + 1) := by
  rw [loop_turn turns o h]
  constructor
  · simp [hkind]
  · intro P
    simp [hkind]

theorem loop_next (turns : Nat) {off : Nat} (o : Options) (h : off < e) (hkind : mem off ≠ 0) :
    let rest :=
  optionLoop turns ((e : Int) - nextOption mem off) (nextOption mem off) (afterOption mem off o)
    (optionLoop (turns + 1) ((e : Int) - off) off o).value mem = rest.value mem ∧
      ∀ P, (optionLoop (turns + 1) ((e : Int) - off) off o).Within P mem ↔
        P off ∧ P (off + 1) ∧ (readOption (mem off) (mem (off + 1)) off o).Within P mem ∧
        rest.Within P mem := by
  rw [loop_turn turns o h]
  by_cases hnop : mem off = 1
  · have hnext : nextOption mem off = off + 1 := if_pos hnop
    have hone : (e : Int) - (off + 1 : Nat) = (e : Int) - off - 1 := by omega
    rw [hnext, hone]
    constructor
    · simp [hnop, afterOption]
    · intro P
      simp [hnop, afterOption]
  · have hnext : nextOption mem off = off + (mem (off + 1)).toNat := if_neg hnop
    have hlen : (e : Int) - (off + (mem (off + 1)).toNat : Nat) =
      (e : Int) - off - (mem (off + 1)).toNat := by omega
    rw [hnext, hlen]
    constructor
    · simp [hkind, hnop, afterOption]
    · intro P
      simp [hkind, hnop, afterOption]

/-! ## Areas that are read to an end -/

/-- Up to the end of the list or of the area, every option has its length byte inside the area, a
length other than 0 unless it is a NOP, and inside the area what is read of its value. -/
inductive Tidy (mem : Memory) (e : Nat) : Nat → Prop where
  | areaEnd {off : Nat} : e ≤ off → Tidy mem e off
  | listEnd {off : Nat} : off + 1 < e → mem off = 0 → Tidy mem e off
  | option {off : Nat} : off + 1 < e → mem off ≠ 0 → (mem off ≠ 1 → mem (off + 1) ≠ 0) →
      ValueInside mem e off →
      Tidy mem e (nextOption mem off) → Tidy mem e off

/-- The loop ends after at most as many turns as the area has bytes, and looks at nothing outside
the area. -/
def DecodesSafely (mem : Memory) (version tcpoptlen tcpoptions : Nat) : Prop :=
  (decodeOptions version tcpoptlen tcpoptlen tcpoptions).value mem ≠ none ∧
    ∀ turns, (decodeOptions version turns tcpoptlen tcpoptions).Within
      (Inside tcpoptions (tcpoptions + tcpoptlen)) mem

theorem nextOption_gt {off : Nat} (h : mem off ≠ 1 → mem (off + 1) ≠ 0) :
    off < nextOption mem off := by
  unfold nextOption
  split
  · exact Nat.lt_succ_self off
  · rename_i hnop
    have hlen : (mem (off + 1)).toNat ≠ 0 := fun h0 => h hnop (UInt8.toNat_inj.mp h0)
    omega

/-- An option of length 0 leads back to itself, so the loop ends only where there is none. -/
theorem tidy_of_loop {a : Nat} (turns : Nat) {off : Nat} (o : Options) (ha : a ≤ off)
    (hend : (optionLoop turns ((e : Int) - off) off o).value mem ≠ none)
    (hreads : (optionLoop turns ((e : Int) - off) off o).Within (Inside a e) mem) :
    Tidy mem e off := by
  induction turns generalizing off o with
  | zero =>
    by_cases hoff : e ≤ off
    · exact .areaEnd hoff
    · rw [loop_stuck o (Nat.not_le.mp hoff)] at hend
      exact absurd rfl hend
  | succ turns ih =>
    by_cases hoff : e ≤ off
    · exact .areaEnd hoff
    have hlt := Nat.not_le.mp hoff
    by_cases hkind : mem off = 0
    · have hlook := ((loop_end turns o hlt hkind).2 _).mp hreads
      exact .listEnd hlook.2.2 hkind
    · obtain ⟨hvalue, hwithin⟩ := loop_next turns o hlt hkind
      rw [hvalue] at hend
      obtain ⟨-, hlook, hoption, hrest⟩ := (hwithin _).mp hreads
      rw [readOption_within] at hoption
      by_cases hlen : mem off ≠ 1 → mem (off + 1) ≠ 0
      · have hnext := nextOption_gt hlen
        apply Tidy.option hlook.2 hkind hlen
        · exact ⟨fun h => (hoption.1 h).2.2, fun h => (hoption.2 h).2⟩
        · exact ih (afterOption mem off o) (by omega) hend hrest
      · push Not at hlen
        have hnext : nextOption mem off = off := by simp [nextOption, hlen]
        rw [hnext] at hend hrest
        exact ih (afterOption mem off o) ha hend hrest

theorem loop_of_tidy {a off : Nat} (h : Tidy mem e off) (ha : a ≤ off) (o : Options) :
    (∀ turns, e ≤ off + turns → (optionLoop turns ((e : Int) - off) off o).value mem ≠ none) ∧
      ∀ turns, (optionLoop turns ((e : Int) - off) off o).Within (Inside a e) mem := by
  induction h generalizing o with
  | areaEnd hoff =>
    constructor
    · intro turns _
      simp [loop_done turns o hoff]
    · intro turns
      simp [loop_done turns o hoff]
  | @listEnd off hlook hkind =>
    have hlt : off < e := Nat.lt_of_succ_lt hlook
    constructor
    · intro turns hturns
      obtain ⟨turns, rfl⟩ := Nat.exists_eq_succ_of_ne_zero (n := turns) (by omega)
      rw [(loop_end turns o hlt hkind).1]
      exact Option.some_ne_none o
    · intro turns
      cases turns with
      | zero => simp [loop_stuck o hlt]
      | succ turns =>
        exact ((loop_end turns o hlt hkind).2 _).mpr ⟨⟨ha, hlt⟩, Nat.le_succ_of_le ha, hlook⟩
  | @option off hlook hkind hlen hoption _ ih =>
    have hlt : off < e := Nat.lt_of_succ_lt hlook
    have hnext := nextOption_gt hlen
    obtain ⟨hrest, hreads⟩ := ih (by omega) (afterOption mem off o)
    constructor
    · intro turns hturns
      obtain ⟨turns, rfl⟩ := Nat.exists_eq_succ_of_ne_zero (n := turns) (by omega)
      rw [(loop_next turns o hlt hkind).1]
      exact hrest turns (by omega)
    · intro turns
      cases turns with
      | zero => simp [loop_stuck o hlt]
      | succ turns =>
        have hvalue : (readOption (mem off) (mem (off + 1)) off o).Within (Inside a e) mem := by
          rw [readOption_within]
          constructor
          · intro h
            have := hoption.1 h
            exact ⟨⟨by omega, by omega⟩, by omega, this⟩
          · intro h
            exact ⟨by omega, hoption.2 h⟩
        exact ((loop_next turns o hlt hkind).2 _).mpr ⟨⟨ha, hlt⟩, ⟨Nat.le_succ_of_le ha, hlook⟩,
          hvalue, hreads turns⟩

/-- The loop is safe for exactly the tidy areas. -/
theorem decodes_safely_iff (mem : Memory) (version tcpoptlen tcpoptions : Nat) :
    DecodesSafely mem version tcpoptlen tcpoptions ↔
    Tidy mem (tcpoptions + tcpoptlen) tcpoptions := by
  have hlen : (tcpoptlen : Int) = ((tcpoptions + tcpoptlen : Nat) : Int) - tcpoptions := by omega
  unfold DecodesSafely decodeOptions
  rw [hlen]
  constructor
  · intro ⟨hend, hreads⟩
    exact tidy_of_loop tcpoptlen _ (Nat.le_refl _) hend (hreads tcpoptlen)
  · intro h
    obtain ⟨hend, hreads⟩ := loop_of_tidy h (Nat.le_refl _) ⟨getDefaultMss version, 0⟩
    exact ⟨hend tcpoptlen (Nat.le_refl _), hreads⟩

/-- A length byte of 0 keeps the loop where it is, a NOP at the end has the byte behind the area
read as its length, and an MSS option at the end the two bytes behind it as its value. -/
theorem decodes_not_safely :
    ¬ DecodesSafely (memoryOf [3, 0, 0, 0] fun _ => 0) 4 4 0 ∧
    ¬ DecodesSafely (memoryOf [1, 1, 1, 1] fun _ => 0) 4 4 0 ∧
      ¬ DecodesSafely (memoryOf [1, 1, 2, 4] fun _ => 0) 4 4 0 := by
  constructor
  · intro h
    exact h.1 (by decide +kernel)
  constructor
  · intro h
    exact absurd (h.2 4 4 (by decide +kernel)) (by decide)
  · intro h
    exact absurd (h.2 4 4 (by decide +kernel)) (by decide)

end

/-! ## Lists of options -/

/-- An option that the loop only steps over; its length byte counts the kind and itself. -/
structure Unknown where
  kind : UInt8
  body : Bytes
  len_lt : body.length + 2 < 256
  not_single : kind ≠ 0 ∧ kind ≠ 1
  not_mss : ¬ (kind = 2 ∧ body.length = 2)
  not_scale : ¬ (kind = 3 ∧ body.length = 1)

inductive Opt where
  | nop
  | mss (value : BitVec 16)
  | scale (shift : UInt8)
  | unknown (u : Unknown)

def Opt.bytes : Opt → Bytes
  | .nop => [1]
  | .mss value => [2, 4] ++ be16Bytes value.toNat
  | .scale shift => [3, 3, shift]
  | .unknown u => [u.kind, UInt8.ofNat (u.body.length + 2)] ++ u.body

def Opt.mss? : Opt → Option Nat
  | .mss value => some value.toNat
  | _ => none

def Opt.scale? : Opt → Option Nat
  | .scale shift => some shift.toNat
  | _ => none

/-- A list of options, and what follows its end: nothing, or the end-of-list option and padding. -/
def areaBytes (opts : List Opt) (padding : Option Bytes) : Bytes :=
  opts.flatMap Opt.bytes ++ padding.elim [] fun p => 0 :: p

/-- The last option of each kind counts. -/
def optionsOf (opts : List Opt) (o : Options) : Options where
  mss := (opts.filterMap Opt.mss?).getLastD o.mss
  ws := (opts.filterMap Opt.scale?).getLastD o.ws

@[simp] theorem optionsOf_nil (o : Options) : optionsOf [] o = o := rfl

theorem optionsOf_cons (opt : Opt) (opts : List Opt) (o : Options) :
    optionsOf (opt :: opts) o = optionsOf opts ⟨opt.mss?.getD o.mss, opt.scale?.getD o.ws⟩ := by
  cases opt with
  | nop => rfl
  | unknown u => rfl
  | mss value => simp only [optionsOf, List.filterMap_cons, Opt.mss?, Opt.scale?,
      List.getLastD_cons, Option.getD]
  | scale shift => simp only [optionsOf, List.filterMap_cons, Opt.mss?, Opt.scale?,
      List.getLastD_cons, Option.getD]

theorem Opt.bytes_pos (opt : Opt) : 0 < opt.bytes.length := by
  cases opt <;> simp [Opt.bytes]

/-- One turn over an option that lies in the area at `off`. -/
theorem option_read (opt : Opt) (rest : Bytes) {mem : Memory} {after : Memory} {off : Nat}
    (o : Options) (hmem : ∀ i, mem (off + i) = memoryOf (opt.bytes ++ rest) after i) :
    mem off ≠ 0 ∧ nextOption mem off = off + opt.bytes.length ∧
      afterOption mem off o = ⟨opt.mss?.getD o.mss, opt.scale?.getD o.ws⟩ := by
  have hmem0 := hmem 0
  rw [Nat.add_zero] at hmem0
  rw [nextOption, afterOption_eq, hmem0, hmem 1, hmem 2, hmem 3]
  cases opt with
  | nop => simp [Opt.bytes, Opt.mss?, Opt.scale?]
  | mss value =>
    have hvalue := be16_bytes value.isLt
    simp only [UInt8.toNat_ofNat'] at hvalue
    simp [Opt.bytes, Opt.mss?, Opt.scale?, be16Bytes, hvalue]
  | scale shift => simp [Opt.bytes, Opt.mss?, Opt.scale?]
  | unknown u =>
    have hlen := u.len_lt
    have htoNat : (UInt8.ofNat (u.body.length + 2)).toNat = u.body.length + 2 := by
      rw [UInt8.toNat_ofNat']
      omega
    have hmss : ¬ (u.kind = 2 ∧ UInt8.ofNat (u.body.length + 2) = 4) := by
      rintro ⟨hkind, h⟩
      rw [← UInt8.toNat_inj, htoNat] at h
      exact u.not_mss ⟨hkind, Nat.add_right_cancel h⟩
    have hscale : ¬ (u.kind = 3 ∧ UInt8.ofNat (u.body.length + 2) = 3) := by
      rintro ⟨hkind, h⟩
      rw [← UInt8.toNat_inj, htoNat] at h
      exact u.not_scale ⟨hkind, Nat.add_right_cancel h⟩
    simp only [Opt.bytes, Opt.mss?, Opt.scale?, List.cons_append, List.nil_append,
      memoryOf_cons_zero, memoryOf_cons_succ, if_neg hmss, if_neg hscale, if_neg u.not_single.2,
      htoNat, Option.getD_none, List.length_cons]
    exact ⟨u.not_single.1, trivial, trivial⟩

/-- The loop over a list of options, wherever in memory it lies. -/
theorem loop_areaBytes (opts : List Opt) (padding : Option Bytes) (before : Bytes) (after : Memory)
    (turns : Nat) (o : Options) {e : Nat} (he : e = before.length + (areaBytes opts padding).length)
    (hturns : e ≤ before.length + turns) :
    (optionLoop turns ((e : Int) - before.length) before.length o).value
      (memoryOf (before ++ areaBytes opts padding) after) = some (optionsOf opts o) := by
  induction opts generalizing before turns o with
  | nil =>
    cases padding with
    | none =>
      have hdone : e ≤ before.length := Nat.le_of_eq he
      rw [loop_done turns o hdone]
      rfl
    | some p =>
      have hpos : before.length < e := by simp [areaBytes] at he; omega
      obtain ⟨turns, rfl⟩ := Nat.exists_eq_succ_of_ne_zero (n := turns) (by omega)
      have hkind := memoryOf_append before (0 :: p) after 0
      exact (loop_end turns o hpos hkind).1
  | cons opt opts ih =>
    have harea : areaBytes (opt :: opts) padding = opt.bytes ++ areaBytes opts padding := by
      simp [areaBytes]
    have hpos := opt.bytes_pos
    rw [harea, List.length_append] at he
    obtain ⟨turns, rfl⟩ := Nat.exists_eq_succ_of_ne_zero (n := turns) (by omega)
    have hread := option_read opt (areaBytes opts padding) o
      (memoryOf_append before (opt.bytes ++ areaBytes opts padding) after)
    obtain ⟨hkind, hnext, hafter⟩ := hread
    have hlen : before.length + opt.bytes.length = (before ++ opt.bytes).length := by simp
    rw [harea, (loop_next turns o (by omega) hkind).1, hnext, hafter, optionsOf_cons, hlen,
      ← List.append_assoc]
    exact ih (before ++ opt.bytes) turns _ (by omega) (by omega)

/-- A well-formed area is decoded to the last value of each option. -/
theorem decode_areaBytes (version : Nat) (opts : List Opt) (padding : Option Bytes) (before : Bytes)
    (after : Memory) (turns : Nat) (hturns : (areaBytes opts padding).length ≤ turns) :
    (decodeOptions version turns (areaBytes opts padding).length before.length).value
      (memoryOf (before ++ areaBytes opts padding) after) =
        some (optionsOf opts ⟨getDefaultMss version, 0⟩) := by
  have hlen : ((areaBytes opts padding).length : Int) =
      ((before.length + (areaBytes opts padding).length : Nat) : Int) - before.length := by omega
  unfold decodeOptions
  rw [hlen]
  exact loop_areaBytes opts padding before after turns _ rfl (by omega)

/-- `ntohs` of a number that was stored without `htons`. -/
def byteSwap (n : Nat) : Nat := 256 * (n % 256) + n / 256

/-- The options of a SYN, taken for a list of options by a reader in network order. -/
theorem optionBytes_eq (s : Tcp.Session) (data : Bytes) (ack fin rst : Bool) :
    optionBytes (writeTcp s data true ack fin rst) =
      areaBytes [.mss (BitVec.ofNat 16 (byteSwap (getDefaultMss s.version))),
        .scale (UInt8.ofNat s.recvScale)] (some []) := by
  have hmss : getDefaultMss s.version = 9960 ∨ getDefaultMss s.version = 9940 := by
    unfold getDefaultMss
    split
    · exact .inl rfl
    · exact .inr rfl
  simp only [optionBytes, writeTcp, if_true]
  rcases hmss with hmss | hmss <;> rw [hmss] <;> rfl

/-- The option block of `write_tcp`: the scale comes back, the MSS with its bytes exchanged. -/
theorem decode_optionBytes (s : Tcp.Session) (data : Bytes) (ack fin rst : Bool) (before : Bytes)
    (after : Memory) (turns : Nat) (hturns : 8 ≤ turns) :
    (decodeOptions s.version turns 8 before.length).value
        (memoryOf (before ++ optionBytes (writeTcp s data true ack fin rst)) after) =
      some ⟨byteSwap (getDefaultMss s.version), s.recvScale % 256⟩ := by
  have hdecode := decode_areaBytes s.version
    [.mss (BitVec.ofNat 16 (byteSwap (getDefaultMss s.version))), .scale (UInt8.ofNat s.recvScale)]
    (some []) before after turns hturns
  have hmss : byteSwap (getDefaultMss s.version) < 2 ^ 16 := by
    unfold getDefaultMss
    split <;> decide
  rw [← optionBytes_eq s data ack fin rst] at hdecode
  simp only [optionsOf_cons, optionsOf_nil, Opt.mss?, Opt.scale?, Option.getD, BitVec.toNat_ofNat,
    Nat.mod_eq_of_lt hmss, UInt8.toNat_ofNat'] at hdecode
  exact hdecode

theorem byteSwap_defaultMss (version : Nat) :
    byteSwap (getDefaultMss version) ≠ getDefaultMss version := by
  unfold getDefaultMss
  split <;> decide

/-- The loop is right about every well-formed area, and about the block of `write_tcp` in no
case. -/
theorem options_decoded (version : Nat) (opts : List Opt) (padding : Option Bytes) (s : Tcp.Session)
    (data : Bytes) (ack fin rst : Bool) (before : Bytes) (after : Memory) :
    let area := areaBytes opts padding
    let block := optionBytes (writeTcp s data true ack fin rst)
    (decodeOptions version area.length area.length before.length).value
      (memoryOf (before ++ area) after) =
        some (optionsOf opts ⟨getDefaultMss version, 0⟩) ∧
      (decodeOptions s.version block.length block.length before.length).value
        (memoryOf (before ++ block) after) =
        some ⟨byteSwap (getDefaultMss s.version), s.recvScale % 256⟩ ∧
      (decodeOptions s.version block.length block.length before.length).value
        (memoryOf (before ++ block) after) ≠
        some ⟨getDefaultMss s.version, s.recvScale⟩ := by
  intro area block
  have hblock := decode_optionBytes s data ack fin rst before after 8 (Nat.le_refl _)
  constructor
  · exact decode_areaBytes version opts padding before after area.length (Nat.le_refl _)
  constructor
  · exact hblock
  · intro h
    have hmss := congrArg (Option.map Options.mss) (hblock.symm.trans h)
    exact byteSwap_defaultMss s.version (Option.some.inj hmss)

/-- The default MSS of IPv4 comes back as 59430. -/
theorem options_not_decoded :
    let s := Tcp.newSession (Tcp.plainSyn 22) (Tcp.synPacket [])
    (decodeOptions 4 8 8 0).value
      (memoryOf (optionBytes (writeTcp s [] true true false false)) fun _ => 0) =
        some ⟨59430, 0⟩ ∧
      (decodeOptions 4 8 8 0).value
        (memoryOf (optionBytes (writeTcp s [] true true false false)) fun _ => 0) ≠
        some ⟨getDefaultMss 4, s.recvScale⟩ := by
  decide +kernel

end PdaNetClient.Ip
