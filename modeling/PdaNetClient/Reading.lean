import Mathlib.Data.List.Basic

/-!
# Reading a memory

A computation that looks at places of a memory, with the places it has looked at. The
memory is total: what lies outside a buffer has some value, and a program that looks there
is told apart by the record. The rules below push a claim about the record through a
program.
-/
namespace PdaNetClient.Reading

set_option autoImplicit false

variable {κ υ α β : Type}

def Reader (κ υ α : Type) : Type := (κ → υ) → α × List κ

instance : Monad (Reader κ υ) where
  pure a := fun _ => (a, [])
  bind r f := fun mem => ((f (r mem).1 mem).1, (r mem).2 ++ (f (r mem).1 mem).2)

def look (k : κ) : Reader κ υ υ := fun mem => (mem k, [k])

def Reader.value (r : Reader κ υ α) (mem : κ → υ) : α := (r mem).1

def Reader.reads (r : Reader κ υ α) (mem : κ → υ) : List κ := (r mem).2

/-- Everything that is looked at satisfies `P`. -/
def Reader.Within (r : Reader κ υ α) (P : κ → Prop) (mem : κ → υ) : Prop := ∀ k ∈ r.reads mem, P k

section

variable (mem : κ → υ) (P : κ → Prop)

@[simp] theorem value_pure (a : α) : (pure a : Reader κ υ α).value mem = a := rfl

@[simp] theorem value_look (k : κ) : (look k).value mem = mem k := rfl

@[simp] theorem value_bind (r : Reader κ υ α) (f : α → Reader κ υ β) :
    (r >>= f).value mem = (f (r.value mem)).value mem := rfl

@[simp] theorem value_ite (c : Prop) [Decidable c] (r s : Reader κ υ α) :
    (if c then r else s).value mem = if c then r.value mem else s.value mem := by
  split <;> rfl

@[simp] theorem within_pure (a : α) : (pure a : Reader κ υ α).Within P mem := by
  intro k hk
  cases hk

@[simp] theorem within_look (k : κ) : (look k).Within P mem ↔ P k := List.forall_mem_singleton

@[simp] theorem within_bind (r : Reader κ υ α) (f : α → Reader κ υ β) :
    (r >>= f).Within P mem ↔ r.Within P mem ∧ (f (r.value mem)).Within P mem :=
  List.forall_mem_append

@[simp] theorem within_ite (c : Prop) [Decidable c] (r s : Reader κ υ α) :
    (if c then r else s).Within P mem ↔ if c then r.Within P mem else s.Within P mem := by
  split <;> rfl

end

/-- `n` places in a row. -/
def lookMany : Nat → Nat → Reader Nat υ (List υ)
  | _, 0 => pure []
  | k, n + 1 => do
    let b ← look k
    let rest ← lookMany (k + 1) n
    pure (b :: rest)

theorem lookMany_within {k n : Nat} {mem : Nat → υ} {P : Nat → Prop}
    (h : ∀ i, k ≤ i → i < k + n → P i) :
    (lookMany k n).Within P mem := by
  induction n generalizing k with
  | zero => exact within_pure mem P []
  | succ n ih =>
    have hrest := ih (k := k + 1) fun i hi hlt => h i (by omega) (by omega)
    simpa [lookMany, hrest] using h k (Nat.le_refl _) (by omega)

theorem lookMany_value (k n : Nat) (mem : Nat → υ) :
    (lookMany k n).value mem = (List.range' k n).map mem := by
  induction n generalizing k with
  | zero => rfl
  | succ n ih => simp [lookMany, ih, List.range'_succ]

theorem within_lookMany {k n : Nat} {mem : Nat → υ} {P : Nat → Prop} :
    (lookMany k n).Within P mem ↔ ∀ i, k ≤ i → i < k + n → P i := by
  refine ⟨fun h i hi hlt => ?_, lookMany_within⟩
  induction n generalizing k with
  | zero => omega
  | succ n ih =>
    simp only [lookMany, within_bind, within_look, within_pure, and_true] at h
    by_cases hik : i = k
    · exact hik ▸ h.1
    · exact ih h.2 (by omega) (by omega)

end PdaNetClient.Reading
