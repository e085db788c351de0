import PdaNetClient.Checksum

/-!
# Checksums over several pieces

`calc_checksum` hands its result on as the start of the next piece. The sum of a packet is
taken in this way over the pseudo-header, the header and the payload, and is the sum of the
joined bytes, bit for bit, as long as only the last piece is odd.
-/
namespace PdaNetClient

open OnesComplement

set_option autoImplicit false

/-- One turn of `while (sum >> 16)`. -/
def foldTurn (sum : U32) : U32 := (sum &&& 0xFFFF#32) + (sum >>> 16)

/-- The loops of one call: no turn of the first one wraps, and the second one ends. -/
structure ExactRun (start : BitVec 16) (buffer : Bytes) : Prop where
  turn : ∀ done rest, buffer = done ++ rest → done.length % 2 = 0 →
    addWords (start.setWidth 32) buffer = addWords (addWords (start.setWidth 32) done) rest ∧
      (addWords (start.setWidth 32) done).toNat = start.toNat + sumLe done
  total : (addWords (start.setWidth 32) buffer).toNat = start.toNat + sumLe buffer
  ends : ∃ n ≤ 2, (foldTurn^[n] (addWords (start.setWidth 32) buffer)) >>> 16 = 0 ∧
    foldCarries (addWords (start.setWidth 32) buffer) =
      foldTurn^[n] (addWords (start.setWidth 32) buffer)

theorem addWords_append (sum : U32) {done : Bytes} (rest : Bytes) (h : done.length % 2 = 0) :
    addWords sum (done ++ rest) = addWords (addWords sum done) rest := by
  fun_induction addWords sum done with
  | case1 sum => rfl
  | case2 sum a => simp at h
  | case3 sum a b done ih =>
    have hdone : done.length % 2 = 0 := by simp at h; omega
    rw [List.cons_append, List.cons_append, addWords, ih hdone]

/-- Two turns are enough: the first leaves a sum below `0x1FFFF`. -/
theorem foldCarries_turns (sum : U32) :
    ∃ n ≤ 2, (foldTurn^[n] sum) >>> 16 = 0 ∧ foldCarries sum = foldTurn^[n] sum := by
  have hsum := sum.isLt
  have hfirst : (foldTurn sum).toNat = sum.toNat % 65536 + sum.toNat / 65536 := halves_toNat sum
  have hsecond := halves_toNat (foldTurn sum)
  by_cases hzero : sum >>> 16 = 0
  · refine ⟨0, by omega, hzero, ?_⟩
    rw [foldCarries, if_pos hzero]
    rfl
  · by_cases hone : (foldTurn sum) >>> 16 = 0
    · refine ⟨1, by omega, hone, ?_⟩
      rw [foldCarries, if_neg hzero]
      show foldCarries (foldTurn sum) = foldTurn sum
      rw [foldCarries, if_pos hone]
    · have htwo : (foldTurn (foldTurn sum)) >>> 16 = 0 := by
        have hval : (foldTurn (foldTurn sum)).toNat < 65536 := by
          show ((foldTurn sum &&& 0xFFFF#32) + (foldTurn sum >>> 16)).toNat < 65536
          omega
        bv_omega
      refine ⟨2, by omega, htwo, ?_⟩
      rw [foldCarries, if_neg hzero]
      show foldCarries (foldTurn sum) = foldTurn (foldTurn sum)
      rw [foldCarries, if_neg hone]
      show foldCarries (foldTurn (foldTurn sum)) = foldTurn (foldTurn sum)
      rw [foldCarries, if_pos htwo]

theorem exactRun (start : BitVec 16) {buffer : Bytes} (h : buffer.length ≤ 131072) :
    ExactRun start buffer := by
  have hstart := start.isLt
  have hwide : (start.setWidth 32).toNat = start.toNat := by simp; omega
  have hexact : ∀ done : Bytes, done.length ≤ 131072 →
      (addWords (start.setWidth 32) done).toNat = start.toNat + sumLe done := by
    intro done hdone
    have hle := sumLe_le done
    rw [addWords_toNat _ _ (by omega), hwide]
  refine ⟨?_, hexact buffer h, foldCarries_turns _⟩
  intro done rest hsplit heven
  rw [hsplit] at h ⊢
  rw [List.length_append] at h
  exact ⟨addWords_append _ rest heven, hexact done (by omega)⟩

theorem length_le_flatten {pieces : List Bytes} {p : Bytes} (h : p ∈ pieces) :
    p.length ≤ pieces.flatten.length :=
  (List.sublist_flatten_of_mem h).length_le

/-- The results along the pieces, as numbers. -/
theorem foldl_toNat (start : BitVec 16) {pieces : List Bytes}
    (h : ∀ p ∈ pieces, p.length ≤ 131072) :
    (pieces.foldl calcChecksum start).toNat =
      pieces.foldl (fun sum p => carry (sum + sumLe p)) start.toNat := by
  induction pieces generalizing start with
  | nil => rfl
  | cons p rest ih =>
    rw [List.foldl_cons, List.foldl_cons, ih _ fun q hq => h q (List.mem_cons_of_mem p hq),
      calcChecksum_toNat start p (h p List.mem_cons_self)]

/-- The checksum of a message in pieces. -/
theorem foldl_zero_toNat (pieces : List Bytes) (heven : ∀ p ∈ pieces.dropLast, p.length % 2 = 0)
    (hlength : pieces.flatten.length ≤ 131072) :
    (pieces.foldl calcChecksum 0).toNat = carry (sumLe pieces.flatten) := by
  have hpiece : ∀ p ∈ pieces, p.length ≤ 131072 := fun p hp => (length_le_flatten hp).trans hlength
  rw [foldl_toNat 0 hpiece, show (0 : BitVec 16).toNat = 0 from rfl, carry_foldl (by decide) heven,
    Nat.zero_add]

/-- The checksum of the pieces is the checksum of the whole, and the whole is summed exactly. -/
theorem calcChecksum_pieces (start : BitVec 16) (pieces : List Bytes)
    (heven : ∀ p ∈ pieces.dropLast, p.length % 2 = 0) (hlength : pieces.flatten.length ≤ 131072) :
    pieces.foldl calcChecksum start = calcChecksum start pieces.flatten ∧
      (∀ p ∈ pieces.flatten :: pieces, ∀ s : BitVec 16, ExactRun s p) ∧
      (calcChecksum start pieces.flatten = 0 ↔ start = 0 ∧ ∀ b ∈ pieces.flatten, b = 0) ∧
      (calcChecksum start pieces.flatten ≠ 0 →
        1 ≤ (calcChecksum start pieces.flatten).toNat ∧
        (calcChecksum start pieces.flatten).toNat ≤ 65535 ∧
        (calcChecksum start pieces.flatten).toNat ≡ start.toNat +
          sumLe pieces.flatten [MOD 65535]) := by
  have hpiece : ∀ p ∈ pieces, p.length ≤ 131072 := fun p hp => (length_le_flatten hp).trans hlength
  have hwhole := calcChecksum_toNat start pieces.flatten hlength
  have hzero : ∀ s : BitVec 16, s = 0 ↔ s.toNat = 0 := fun s => (BitVec.toNat_inj (y := 0)).symm
  refine ⟨?_, ?_, ?_, ?_⟩
  · apply BitVec.eq_of_toNat_eq
    rw [foldl_toNat start hpiece, carry_foldl start.isLt heven, hwhole]
  · intro p hp s
    rcases List.mem_cons.mp hp with hp | hp
    · exact exactRun s (hp ▸ hlength)
    · exact exactRun s (hpiece p hp)
  · rw [hzero, hwhole, carry_eq_zero, Nat.add_eq_zero_iff, ← hzero, sumLe_eq_zero]
  · intro hne
    have hlt := (calcChecksum start pieces.flatten).isLt
    have hpos := Nat.pos_of_ne_zero (mt (hzero _).mpr hne)
    refine ⟨hpos, by omega, ?_⟩
    rw [hwhole]
    exact carry_modEq _

theorem calcChecksum_pieces_three :
    [[0x45, 0], [0, 0x1C], [7]].foldl calcChecksum 0xFFFE#16 =
      calcChecksum 0xFFFE#16 [0x45, 0, 0, 0x1C, 7] :=
  (calcChecksum_pieces 0xFFFE#16 [[0x45, 0], [0, 0x1C], [7]] (by decide) (by decide)).1

end PdaNetClient
