import PdaNetClient.SerialNumber
import PdaNetClient.Util

/-!
# `compare_u32` as a serial order

Within half a circle of a base, `compare_u32` should answer as the offsets from the base
do. It compares the numbers as `int`, so it answers the other way round for two numbers
with the sign boundary between them, and at distance `0x7FFFFFFF` it calls each of the two
the later one.
-/
namespace PdaNetClient.Serial

set_option autoImplicit false

/-- What RFC 1982 asks for on the numbers at these offsets. -/
structure Circular (base : U32) (offsets : Set Nat) : Prop where
  agrees : ∀ i ∈ offsets, ∀ j ∈ offsets,
    compareU32 (base + BitVec.ofNat 32 i) (base + BitVec.ofNat 32 j) = Int.sign ((i : Int) - j)
  /-- A strict total order on the numbers. -/
  order : IsStrictTotalOrder {s : U32 // ∃ i ∈ offsets, s = base + BitVec.ofNat 32 i} fun s t =>
    compareU32 s.1 t.1 = -1
  /-- Any other base with these numbers in its window gives the same order. -/
  anyBase : ∀ other : U32, (∀ i ∈ offsets, 2 * offset other (base + BitVec.ofNat 32 i) < 2 ^ 32) →
    ∀ i ∈ offsets, ∀ j ∈ offsets, compareU32 (base + BitVec.ofNat 32 i) (base + BitVec.ofNat 32 j) =
      Int.sign ((offset other (base + BitVec.ofNat 32 i) : Int) -
        offset other (base + BitVec.ofNat 32 j))

/-- On the way up from offset `i` to offset `j` lies the smallest `int`. -/
def PassesSign (base : U32) (i j : Nat) : Prop :=
  ∃ k, i < k ∧ k ≤ j ∧ base + BitVec.ofNat 32 k = 0x80000000#32

theorem compareU32_values (a b : U32) :
    compareU32 a b = -1 ∨ compareU32 a b = 0 ∨ compareU32 a b = 1 := by
  unfold compareU32
  split
  · exact Or.inr (Or.inl rfl)
  · split
    · exact Or.inl rfl
    · exact Or.inr (Or.inr rfl)

theorem toNat_add_ofNat (base : U32) (i : Nat) :
    (base + BitVec.ofNat 32 i).toNat = (base.toNat + i) % 2 ^ 32 := by
  rw [BitVec.toNat_add, BitVec.toNat_ofNat, Nat.add_mod_mod]

/-- The `int` behind a number of the window. -/
theorem toInt_add_ofNat (base : U32) (i : Nat) :
    (base + BitVec.ofNat 32 i).toInt = (base.toNat + i) % 2 ^ 32 ∧
    (base.toNat + i) % 2 ^ 32 < 2 ^ 31 ∨
      (base + BitVec.ofNat 32 i).toInt = (base.toNat + i) % 2 ^ 32 - 2 ^ 32 ∧
      2 ^ 31 ≤ (base.toNat + i) % 2 ^ 32 := by
  have hval := toNat_add_ofNat base i
  have hcond := BitVec.toInt_eq_toNat_cond (base + BitVec.ofNat 32 i)
  rw [hval] at hcond
  split at hcond
  · left
    omega
  · right
    omega

/-- Up the window the `int` grows by the distance, unless it wraps. -/
theorem toInt_distance (base : U32) {i j : Nat} (hij : i < j) (hj : j < 2 ^ 31) :
    (base + BitVec.ofNat 32 j).toInt - (base + BitVec.ofNat 32 i).toInt = j - i ∨
      (base + BitVec.ofNat 32 j).toInt - (base + BitVec.ofNat 32 i).toInt = j - i - 2 ^ 32 := by
  have hbase := base.isLt
  rcases toInt_add_ofNat base i with ⟨hi, hi'⟩ | ⟨hi, hi'⟩ <;>
    rcases toInt_add_ofNat base j with ⟨hj', hj''⟩ | ⟨hj', hj''⟩ <;> omega

/-- The boundary is passed when the later number is the smaller `int`. -/
theorem passesSign_iff {base : U32} {i j : Nat} (hij : i < j) (hj : j < 2 ^ 31) :
    PassesSign base i j ↔ (base + BitVec.ofNat 32 j).toInt < (base + BitVec.ofNat 32 i).toInt := by
  have hbase := base.isLt
  have hi := toInt_add_ofNat base i
  have hj' := toInt_add_ofNat base j
  constructor
  · intro ⟨k, hik, hkj, hk⟩
    have hk : (base.toNat + k) % 2 ^ 32 = 2 ^ 31 := by
      rw [← toNat_add_ofNat, hk]
      rfl
    omega
  · intro hlt
    have hwrap : ∃ k, (base.toNat + k) % 2 ^ 32 = 2 ^ 31 ∧ i < k ∧ k ≤ j := by
      by_cases hlow : base.toNat + i < 2 ^ 31
      · exact ⟨2 ^ 31 - base.toNat, by omega⟩
      · exact ⟨2 ^ 32 + 2 ^ 31 - base.toNat, by omega⟩
    obtain ⟨k, hk, hik, hkj⟩ := hwrap
    refine ⟨k, hik, hkj, BitVec.eq_of_toNat_eq ?_⟩
    rw [toNat_add_ofNat, hk]
    rfl

/-- The earlier number is called the earlier one. -/
theorem compareU32_up (base : U32) {i j : Nat} (hij : i < j) (hj : j < 2 ^ 31) :
    compareU32 (base + BitVec.ofNat 32 i) (base + BitVec.ofNat 32 j) < 0 ↔
      ¬ PassesSign base i j ∧ j ≠ i + 0x7FFFFFFF := by
  have hdist := toInt_distance base hij hj
  rw [compareU32_neg, passesSign_iff hij hj]
  omega

/-- The later number is called the earlier one; here the distance does not matter. -/
theorem compareU32_down (base : U32) {i j : Nat} (hij : i < j) (hj : j < 2 ^ 31) :
    compareU32 (base + BitVec.ofNat 32 j) (base + BitVec.ofNat 32 i) < 0 ↔ PassesSign base i j := by
  have hdist := toInt_distance base hij hj
  rw [compareU32_neg, passesSign_iff hij hj]
  omega

theorem add_ofNat_inj {base : U32} {i j : Nat} (hi : i < 2 ^ 31) (hj : j < 2 ^ 31) :
    base + BitVec.ofNat 32 i = base + BitVec.ofNat 32 j ↔ i = j := by
  constructor
  · intro heq
    have hoff := congrArg (offset base) heq
    rwa [offset_base_add base (by omega), offset_base_add base (by omega)] at hoff
  · intro heq
    rw [heq]

/-- One pair of the window, answered as the offsets are. -/
theorem compareU32_agrees {base : U32} {i j : Nat} (hi : i < 2 ^ 31) (hj : j < 2 ^ 31) :
    compareU32 (base + BitVec.ofNat 32 i) (base + BitVec.ofNat 32 j) = Int.sign ((i : Int) - j) ↔
      ¬ PassesSign base i j ∧ ¬ PassesSign base j i ∧ j ≠ i + 0x7FFFFFFF := by
  have hvalues := compareU32_values (base + BitVec.ofNat 32 i) (base + BitVec.ofNat 32 j)
  have hempty : ∀ {k l : Nat}, l ≤ k → ¬ PassesSign base k l := fun hle ⟨m, hkm, hml, _⟩ => by omega
  rcases Nat.lt_trichotomy i j with hij | hij | hij
  · have hneg := compareU32_up base hij hj
    rw [Int.sign_eq_neg_one_of_neg (by omega)]
    have hback := hempty hij.le
    constructor
    · intro heq
      have := hneg.mp (by omega)
      exact ⟨this.1, hback, this.2⟩
    · intro ⟨hpass, _, hfar⟩
      have := hneg.mpr ⟨hpass, hfar⟩
      omega
  · subst hij
    rw [compareU32_self, Int.sub_self, Int.sign_zero]
    exact iff_of_true rfl ⟨hempty le_rfl, hempty le_rfl, by omega⟩
  · have hneg := compareU32_down base hij hi
    have hzero := compareU32_eq_zero (a := base + BitVec.ofNat 32 i) (b := base + BitVec.ofNat 32 j)
    rw [add_ofNat_inj hi hj] at hzero
    have hsign : Int.sign ((i : Int) - j) = 1 := Int.sign_eq_one_of_pos (by omega)
    have hback := hempty (k := i) hij.le
    rw [hsign]
    constructor
    · intro heq
      exact ⟨hback, fun hpass => by have := hneg.mpr hpass; omega, by omega⟩
    · intro ⟨_, hpass, _⟩
      have hnot : ¬ compareU32 (base + BitVec.ofNat 32 i) (base + BitVec.ofNat 32 j) < 0 :=
        fun h => hpass (hneg.mp h)
      omega

/-- The numbers at some offsets of a window lie within it. -/
theorem within_offsets {base : U32} {offsets : Set Nat} (h : ∀ i ∈ offsets, i < 2 ^ 31) :
    Within base {s | ∃ i ∈ offsets, s = base + BitVec.ofNat 32 i} := by
  intro s ⟨i, hi, hs⟩
  have hlt := h i hi
  rw [hs, offset_base_add base (by omega)]
  omega

/-- Where the comparison agrees with the offsets it is the serial order. -/
theorem before_of_agrees {base : U32} {i j : Nat} (hi : i < 2 ^ 31) (hj : j < 2 ^ 31)
    (h : compareU32 (base + BitVec.ofNat 32 i) (base + BitVec.ofNat 32 j) =
      Int.sign ((i : Int) - j)) :
    compareU32 (base + BitVec.ofNat 32 i) (base + BitVec.ofNat 32 j) = -1 ↔
      Before (base + BitVec.ofNat 32 i) (base + BitVec.ofNat 32 j) := by
  have hoi := offset_base_add base (i := i) (by omega)
  have hoj := offset_base_add base (i := j) (by omega)
  rw [before_iff base (by omega) (by omega), hoi, hoj, h, Int.sign_eq_neg_one_iff_neg]
  omega

theorem sign_sub_congr {a b c d : Int} (h : a < b ↔ c < d) (h' : b < a ↔ d < c) :
    Int.sign (a - b) = Int.sign (c - d) := by
  rcases lt_trichotomy a b with hab | hab | hab
  · rw [Int.sign_eq_neg_one_of_neg (by omega), Int.sign_eq_neg_one_of_neg (by omega)]
  · rw [show a - b = 0 by omega, show c - d = 0 by omega]
  · rw [Int.sign_eq_one_of_pos (by omega), Int.sign_eq_one_of_pos (by omega)]

/-- The comparison is the serial order of a window if and only if no two of its numbers have
the sign boundary between them and no two are `0x7FFFFFFF` apart. -/
theorem compareU32_circular (base : U32) (offsets : Set Nat) (h : ∀ i ∈ offsets, i < 2 ^ 31) :
    Circular base offsets ↔
      ∀ i ∈ offsets, ∀ j ∈ offsets, ¬ PassesSign base i j ∧ j ≠ i + 0x7FFFFFFF := by
  constructor
  · intro hcirc i hi j hj
    have hpair := (compareU32_agrees (h i hi) (h j hj)).mp (hcirc.agrees i hi j hj)
    exact ⟨hpair.1, hpair.2.2⟩
  · intro hfree
    have hagrees : ∀ i ∈ offsets, ∀ j ∈ offsets,
        compareU32 (base + BitVec.ofNat 32 i) (base + BitVec.ofNat 32 j) =
          Int.sign ((i : Int) - j) := by
      intro i hi j hj
      apply (compareU32_agrees (h i hi) (h j hj)).mpr
      exact ⟨(hfree i hi j hj).1, (hfree j hj i hi).1, (hfree i hi j hj).2⟩
    refine ⟨hagrees, ?_, ?_⟩
    · have hrel : (fun s t : {s : U32 // ∃ i ∈ offsets, s = base + BitVec.ofNat 32 i} =>
        compareU32 s.1 t.1 = -1) =
          fun s t => Before s.1 t.1 := by
        funext s t
        obtain ⟨s, i, hi, rfl⟩ := s
        obtain ⟨t, j, hj, rfl⟩ := t
        exact propext (before_of_agrees (h i hi) (h j hj) (hagrees i hi j hj))
      rw [hrel]
      exact before_strictTotal (within_offsets h)
    · intro other hother i hi j hj
      have hup := before_of_agrees (h i hi) (h j hj) (hagrees i hi j hj)
      have hdown := before_of_agrees (h j hj) (h i hi) (hagrees j hj i hi)
      rw [hagrees i hi j hj, Int.sign_eq_neg_one_iff_neg,
        before_iff _ (hother i hi) (hother j hj)] at hup
      rw [hagrees j hj i hi, Int.sign_eq_neg_one_iff_neg,
        before_iff _ (hother j hj) (hother i hi)] at hdown
      rw [hagrees i hi j hj]
      apply sign_sub_congr <;> omega

theorem compareU32_circular_low :
    (∀ i ∈ ({0, 5, 9} : Set Nat), i < 2 ^ 31) ∧ Circular 1000#32 {0, 5, 9} := by
  have hlow : ∀ i ∈ ({0, 5, 9} : Set Nat), i ≤ 9 := by
    intro i hi
    simp only [Set.mem_insert_iff, Set.mem_singleton_iff] at hi
    omega
  have hwindow : ∀ i ∈ ({0, 5, 9} : Set Nat), i < 2 ^ 31 := fun i hi => by have := hlow i hi; omega
  refine ⟨hwindow, (compareU32_circular 1000#32 {0, 5, 9} hwindow).mpr ?_⟩
  intro i hi j hj
  have hj9 := hlow j hj
  refine ⟨?_, by omega⟩
  intro ⟨k, hik, hkj, hk⟩
  have hval := congrArg BitVec.toNat hk
  rw [toNat_add_ofNat] at hval
  simp at hval
  omega

/-- Two successive numbers at the sign boundary. -/
theorem compareU32_boundary :
    compareU32 (0x7FFFFFFF#32 + BitVec.ofNat 32 0) (0x7FFFFFFF#32 + BitVec.ofNat 32 1) = 1 ∧
    ¬ Circular 0x7FFFFFFF#32 {0, 1} := by
  have hpair : compareU32 (0x7FFFFFFF#32 + BitVec.ofNat 32 0) (0x7FFFFFFF#32 + BitVec.ofNat 32 1) =
    1 := by decide
  refine ⟨hpair, fun hcirc => ?_⟩
  have hagrees := hcirc.agrees 0 (by simp) 1 (by simp)
  rw [hpair] at hagrees
  exact absurd hagrees (by decide)

end PdaNetClient.Serial
