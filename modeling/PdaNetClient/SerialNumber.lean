import Mathlib.Data.BitVec
import Mathlib.Data.Set.Basic
import Mathlib.Order.Defs.Unbundled

/-!
# Serial numbers

Numbers of a fixed width on a circle. A number comes before another when the way up from
it to the other is less than half of the circle. On a set of numbers that all lie within
half a circle of one base this is the order of the offsets, and a strict total order.
-/
namespace PdaNetClient.Serial

set_option autoImplicit false

variable {w : Nat}

/-- The way up from the base. -/
def offset (base s : BitVec w) : Nat := (s - base).toNat

def Within (base : BitVec w) (numbers : Set (BitVec w)) : Prop :=
  ∀ s ∈ numbers, 2 * offset base s < 2 ^ w

def Before (s t : BitVec w) : Prop := s ≠ t ∧ 2 * offset s t < 2 ^ w

theorem base_add_offset (base s : BitVec w) : base + BitVec.ofNat w (offset base s) = s := by
  rw [offset, BitVec.ofNat_toNat, BitVec.setWidth_eq, BitVec.add_comm, BitVec.sub_add_cancel]

theorem offset_inj {base s t : BitVec w} (h : offset base s = offset base t) : s = t := by
  rw [← base_add_offset base s, h, base_add_offset]

theorem offset_base_add (base : BitVec w) {i : Nat} (h : i < 2 ^ w) :
    offset base (base + BitVec.ofNat w i) = i := by
  rw [offset, BitVec.add_comm, BitVec.add_sub_cancel, BitVec.toNat_ofNat, Nat.mod_eq_of_lt h]

/-- The way between two numbers, by their offsets. -/
theorem offset_offset (base s t : BitVec w) :
    offset s t = (offset base t + (2 ^ w - offset base s)) % 2 ^ w := by
  have hdiff : t - s = (t - base) - (s - base) := by
    simp only [BitVec.sub_eq_add_neg, BitVec.neg_add, BitVec.neg_neg]
    rw [BitVec.add_assoc, BitVec.add_comm (-s) base, ← BitVec.add_assoc (-base) base,
      BitVec.add_comm (-base) base, ← BitVec.sub_eq_add_neg base base, BitVec.sub_self,
      BitVec.zero_add]
  rw [offset, hdiff, BitVec.toNat_sub, offset, offset, Nat.add_comm]

theorem before_iff (base : BitVec w) {s t : BitVec w} (hs : 2 * offset base s < 2 ^ w)
    (ht : 2 * offset base t < 2 ^ w) :
    Before s t ↔ offset base s < offset base t := by
  have hway := offset_offset base s t
  have hinj : offset base s = offset base t → s = t := offset_inj
  by_cases hlt : offset base s < offset base t
  · have hway : offset s t = offset base t - offset base s := by
      rw [hway, show offset base t + (2 ^ w - offset base s) =
        offset base t - offset base s + 2 ^ w by omega, Nat.add_mod_right,
        Nat.mod_eq_of_lt (by omega)]
    have hne : s ≠ t := by
      intro heq
      rw [heq] at hlt
      omega
    exact iff_of_true ⟨hne, by omega⟩ hlt
  · apply iff_of_false _ hlt
    intro ⟨hne, hnear⟩
    have hdiff : offset base s ≠ offset base t := fun heq => hne (hinj heq)
    rw [hway, Nat.mod_eq_of_lt (by omega)] at hnear
    omega

/-- The order of a window. -/
theorem before_strictTotal {base : BitVec w} {numbers : Set (BitVec w)} (h : Within base numbers) :
    IsStrictTotalOrder numbers fun s t => Before s.1 t.1 where
  trichotomous s t hst hts := by
    rw [before_iff base (h s s.2) (h t t.2)] at hst
    rw [before_iff base (h t t.2) (h s s.2)] at hts
    exact Subtype.ext (offset_inj (Nat.le_antisymm (Nat.not_lt.mp hts) (Nat.not_lt.mp hst)))
  irrefl s hs := hs.1 rfl
  trans s t u hst htu := by
    rw [before_iff base (h s s.2) (h t t.2)] at hst
    rw [before_iff base (h t t.2) (h u u.2)] at htu
    rw [before_iff base (h s s.2) (h u u.2)]
    exact hst.trans htu

end PdaNetClient.Serial
