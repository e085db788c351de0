import Mathlib.Algebra.Ring.Nat
import Mathlib.Data.List.Count

/-!
# Blocks of addresses

The numbers that agree in all but their last bits. A block and its sibling make up the
block above them, so that the siblings of a block and of those above it divide what is
left of the topmost one.
-/
namespace PdaNetClient.Prefixes

set_option autoImplicit false

/-- The numbers with these leading bits, behind which `free` bits are left. -/
structure Block where
  leading : Nat
  free : Nat
  deriving DecidableEq, Repr

namespace Block

def Covers (b : Block) (a : Nat) : Prop := a / 2 ^ b.free = b.leading

instance (b : Block) (a : Nat) : Decidable (b.Covers a) := inferInstanceAs (Decidable (_ = _))

/-- The other half of the block above. -/
def sibling (b : Block) : Block :=
  ⟨if b.leading % 2 = 0 then b.leading + 1 else b.leading - 1, b.free⟩

def above (b : Block) : Block := ⟨b.leading / 2, b.free + 1⟩

/-- The `n`-th block above. -/
def aboveBy : Nat → Block → Block
  | 0, b => b
  | n + 1, b => b.above.aboveBy n

/-- The siblings of the block and of those above it, the nearest ones first. -/
def siblings : Nat → Block → List Block
  | 0, _ => []
  | n + 1, b => b.sibling :: b.above.siblings n

variable (b : Block) (a : Nat)

theorem sibling_covers_iff : b.sibling.Covers a ↔ a / 2 ^ b.free = b.sibling.leading := Iff.rfl

theorem sibling_leading :
    b.sibling.leading = if b.leading % 2 = 0 then b.leading + 1 else b.leading - 1 :=
  rfl

theorem above_covers_iff : b.above.Covers a ↔ b.Covers a ∨ b.sibling.Covers a := by
  have habove : b.above.Covers a ↔ a / 2 ^ b.free / 2 = b.leading / 2 := by
    rw [Nat.div_div_eq_div_mul, ← Nat.pow_succ]
    rfl
  rw [habove, sibling_covers_iff, sibling_leading]
  unfold Covers
  split <;> omega

theorem not_both (h : b.Covers a) : ¬ b.sibling.Covers a := by
  rw [sibling_covers_iff, sibling_leading]
  unfold Covers at h
  split <;> omega

/-- What the topmost block covers is covered by the block at the bottom or by exactly one of the
siblings. -/
theorem count_siblings (n : Nat) (h : (b.aboveBy n).Covers a) :
    (b.siblings n).countP (fun c => c.Covers a) = if b.Covers a then 0 else 1 := by
  induction n generalizing b with
  | zero =>
    have hb : b.Covers a := h
    rw [if_pos hb]
    rfl
  | succ n ih =>
    have hrest := ih b.above h
    have habove := b.above_covers_iff a
    rw [siblings, List.countP_cons, hrest]
    by_cases hb : b.Covers a
    · have hsibling := b.not_both a hb
      simp [hb, hsibling, habove]
    · by_cases hsibling : b.sibling.Covers a
      · simp [hb, hsibling, habove]
      · simp [hb, hsibling, habove]

end Block

end PdaNetClient.Prefixes
