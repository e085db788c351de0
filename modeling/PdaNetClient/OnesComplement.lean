import Mathlib.Data.Nat.ModEq
import Mathlib.Data.List.Basic

/-!
# One's complement sums

Sums of the 16-bit words of a byte string, in either byte order, with the carries folded
back. A string of odd length is read as if a zero byte followed it. Both orders give the
same answer to the question a receiver asks: does the sum fold to `0xFFFF`?
-/
namespace PdaNetClient.OnesComplement

set_option autoImplicit false

/-- The words in network order. -/
def sumBe : List UInt8 → Nat
  | [] => 0
  | [a] => 256 * a.toNat
  | a :: b :: rest => 256 * a.toNat + b.toNat + sumBe rest

/-- The words as a little-endian machine loads them. -/
def sumLe : List UInt8 → Nat
  | [] => 0
  | [a] => a.toNat
  | a :: b :: rest => a.toNat + 256 * b.toNat + sumLe rest

def carry (n : Nat) : Nat := if n < 65536 then n else carry (n % 65536 + n / 65536)
decreasing_by omega

/-- What a receiver asks for. -/
def Verifies (bytes : List UInt8) : Prop := carry (sumBe bytes) = 0xFFFF

theorem carry_small {n : Nat} (h : n < 65536) : carry n = n := by
  unfold carry
  exact if_pos h

theorem carry_lt (n : Nat) : carry n < 65536 := by
  fun_induction carry n with
  | case1 n h => exact h
  | case2 n h ih => exact ih

theorem carry_modEq (n : Nat) : carry n ≡ n [MOD 65535] := by
  fun_induction carry n with
  | case1 n h => exact rfl
  | case2 n h ih =>
    refine ih.trans ?_
    unfold Nat.ModEq
    omega

theorem carry_eq_zero {n : Nat} : carry n = 0 ↔ n = 0 := by
  fun_induction carry n with
  | case1 n h => exact Iff.rfl
  | case2 n h ih =>
    rw [ih]
    omega

/-- A sum folds to `0xFFFF` when it is a multiple of it, and not zero. -/
theorem carry_eq_top {n : Nat} : carry n = 0xFFFF ↔ n ≠ 0 ∧ n % 65535 = 0 := by
  have hlt := carry_lt n
  have hmod := carry_modEq n
  have hzero := carry_eq_zero (n := n)
  unfold Nat.ModEq at hmod
  omega

/-- A sum may be folded at any time. -/
theorem carry_add (a b : Nat) : carry (carry a + b) = carry (a + b) := by
  have ha := carry_modEq a
  have hzero := carry_eq_zero (n := a)
  have hl := carry_modEq (carry a + b)
  have hr := carry_modEq (a + b)
  have hllt := carry_lt (carry a + b)
  have hrlt := carry_lt (a + b)
  have hlzero := carry_eq_zero (n := carry a + b)
  have hrzero := carry_eq_zero (n := a + b)
  unfold Nat.ModEq at ha hl hr
  omega

theorem sumLe_append {xs : List UInt8} (ys : List UInt8) (h : xs.length % 2 = 0) :
    sumLe (xs ++ ys) = sumLe xs + sumLe ys := by
  fun_induction sumLe xs with
  | case1 => simp
  | case2 a => simp at h
  | case3 a b rest ih =>
    have hrest := ih (by simp at h; omega)
    simp only [List.cons_append, sumLe, hrest]
    omega

theorem sumBe_append {xs : List UInt8} (ys : List UInt8) (h : xs.length % 2 = 0) :
    sumBe (xs ++ ys) = sumBe xs + sumBe ys := by
  fun_induction sumBe xs with
  | case1 => simp
  | case2 a => simp at h
  | case3 a b rest ih =>
    have hrest := ih (by simp at h; omega)
    simp only [List.cons_append, sumBe, hrest]
    omega

theorem sumLe_le (xs : List UInt8) : sumLe xs ≤ 65535 * ((xs.length + 1) / 2) := by
  fun_induction sumLe xs with
  | case1 => simp
  | case2 a =>
    have ha := a.toNat_lt
    simp
    omega
  | case3 a b rest ih =>
    have ha := a.toNat_lt
    have hb := b.toNat_lt
    simp only [List.length_cons]
    omega

/-- Pieces that end on a word boundary, the last one anywhere. -/
theorem sumLe_cons_flatten {p : List UInt8} {rest : List (List UInt8)}
    (h : ∀ q ∈ (p :: rest).dropLast, q.length % 2 = 0) :
    sumLe (p :: rest).flatten = sumLe p + sumLe rest.flatten := by
  cases rest with
  | nil => simp [sumLe]
  | cons q rest =>
    rw [List.flatten_cons]
    exact sumLe_append _ (h p (by simp))

/-- The sum carried along from piece to piece is the sum of the whole. -/
theorem carry_foldl {start : Nat} {pieces : List (List UInt8)} (hstart : start < 65536)
    (h : ∀ p ∈ pieces.dropLast, p.length % 2 = 0) :
    pieces.foldl (fun sum p => carry (sum + sumLe p)) start =
      carry (start + sumLe pieces.flatten) := by
  induction pieces generalizing start with
  | nil =>
    rw [List.foldl_nil, List.flatten_nil, sumLe, Nat.add_zero, carry_small hstart]
  | cons p rest ih =>
    have hrest : ∀ q ∈ rest.dropLast, q.length % 2 = 0 := by
      intro q hq
      apply h q
      cases rest with
      | nil => simp at hq
      | cons r rest => exact List.mem_cons_of_mem p hq
    rw [List.foldl_cons, ih (carry_lt _) hrest, carry_add, sumLe_cons_flatten h, Nat.add_assoc]

theorem sumLe_eq_zero (xs : List UInt8) : sumLe xs = 0 ↔ ∀ b ∈ xs, b = 0 := by
  have hbyte : ∀ b : UInt8, b.toNat = 0 ↔ b = 0 := fun b => UInt8.toNat_inj (b := 0)
  fun_induction sumLe xs with
  | case1 => simp
  | case2 a => simp [hbyte]
  | case3 a b rest ih =>
    have hrest : sumLe rest = 0 ↔ ∀ c ∈ rest, c = 0 := ih
    rw [List.forall_mem_cons, List.forall_mem_cons, ← hrest, ← hbyte a, ← hbyte b]
    omega

/-- Exchanging the bytes of every word is a multiplication by 256. -/
theorem sumBe_mod (xs : List UInt8) : sumBe xs % 65535 = 256 * sumLe xs % 65535 := by
  fun_induction sumLe xs with
  | case1 => rfl
  | case2 a => rfl
  | case3 a b rest ih =>
    simp only [sumBe]
    omega

theorem sumBe_eq_zero (xs : List UInt8) : sumBe xs = 0 ↔ sumLe xs = 0 := by
  fun_induction sumLe xs with
  | case1 => rfl
  | case2 a =>
    simp only [sumBe]
    omega
  | case3 a b rest ih =>
    simp only [sumBe]
    omega

/-- The order in which the words are loaded does not matter. -/
theorem verifies_iff {bytes : List UInt8} :
    Verifies bytes ↔ sumLe bytes ≠ 0 ∧ sumLe bytes % 65535 = 0 := by
  have hmod := sumBe_mod bytes
  have hzero := sumBe_eq_zero bytes
  unfold Verifies
  rw [carry_eq_top]
  omega

/-- A checksum field that holds the complement of the rest. -/
theorem complement_verifies {bytes : List UInt8} {rest : Nat}
    (h : sumLe bytes = rest + (0xFFFF - carry rest)) (hrest : rest ≠ 0) : Verifies bytes := by
  have hlt := carry_lt rest
  have hmod := carry_modEq rest
  unfold Nat.ModEq at hmod
  rw [verifies_iff]
  omega

end PdaNetClient.OnesComplement
