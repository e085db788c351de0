import Mathlib.Data.List.Infix

/-!
# Runs of a deterministic machine with outputs

A machine consumes one input per step and emits a finite list of outputs.
Everything nondeterministic (the peer, the kernel, the clock) is part of the
input, so a run is a fold over the list of inputs. The rules below turn what one
step preserves into what every run preserves, under a side condition that is
only asked of the steps the run really takes.
-/
namespace PdaNetClient.Runs

set_option autoImplicit false

variable {σ ι ο : Type}

abbrev Machine (σ ι ο : Type) := σ → ι → σ × List ο

def run (M : Machine σ ι ο) : σ → List ι → σ × List ο
  | s, [] => (s, [])
  | s, i :: is => ((run M (M s i).1 is).1, (M s i).2 ++ (run M (M s i).1 is).2)

/-- The condition `P` holds of the state before each step and the input it consumes. -/
def Along (M : Machine σ ι ο) (P : σ → ι → Prop) : σ → List ι → Prop
  | _, [] => True
  | s, i :: is => P s i ∧ Along M P (M s i).1 is

/-- `C` holds of every state of the run, the first and the last included. -/
def Always (M : Machine σ ι ο) (C : σ → Prop) : σ → List ι → Prop
  | s, [] => C s
  | s, i :: is => C s ∧ Always M C (M s i).1 is

@[simp] theorem run_nil (M : Machine σ ι ο) (s : σ) : run M s [] = (s, []) := rfl

@[simp] theorem run_cons (M : Machine σ ι ο) (s : σ) (i : ι) (is : List ι) :
    run M s (i :: is) = ((run M (M s i).1 is).1, (M s i).2 ++ (run M (M s i).1 is).2) := rfl

@[simp] theorem along_nil (M : Machine σ ι ο) (P : σ → ι → Prop) (s : σ) : Along M P s [] := trivial

@[simp] theorem along_cons (M : Machine σ ι ο) (P : σ → ι → Prop) (s : σ) (i : ι) (is : List ι) :
    Along M P s (i :: is) ↔ P s i ∧ Along M P (M s i).1 is := Iff.rfl

theorem run_append (M : Machine σ ι ο) (s : σ) (before after : List ι) :
    run M s (before ++ after) =
      ((run M (run M s before).1 after).1, (run M s before).2 ++
        (run M (run M s before).1 after).2) := by
  induction before generalizing s with
  | nil => simp
  | cons i is ih => simp [ih, List.append_assoc]

theorem along_append (M : Machine σ ι ο) (P : σ → ι → Prop) (s : σ) (before after : List ι) :
    Along M P s (before ++ after) ↔ Along M P s before ∧ Along M P (run M s before).1 after := by
  induction before generalizing s with
  | nil => simp
  | cons i is ih => simp [ih, and_assoc]

theorem always_iff (M : Machine σ ι ο) (C : σ → Prop) (s : σ) (is : List ι) :
    Always M C s is ↔ Along M (fun t _ => C t) s is ∧ C (run M s is).1 := by
  induction is generalizing s with
  | nil => simp [Always]
  | cons i is ih => simp [Always, ih, and_assoc]

theorem along_and (M : Machine σ ι ο) (P Q : σ → ι → Prop) (s : σ) (is : List ι) :
    Along M (fun t i => P t i ∧ Q t i) s is ↔ Along M P s is ∧ Along M Q s is := by
  induction is generalizing s with
  | nil => simp
  | cons i is ih =>
    simp only [along_cons, ih]
    constructor
    · exact fun ⟨⟨hp, hq⟩, hps, hqs⟩ => ⟨⟨hp, hps⟩, hq, hqs⟩
    · exact fun ⟨⟨hp, hps⟩, hq, hqs⟩ => ⟨⟨hp, hq⟩, hps, hqs⟩

theorem along_of_forall (M : Machine σ ι ο) {P : ι → Prop} (s : σ) (is : List ι)
    (h : ∀ i ∈ is, P i) : Along M (fun _ i => P i) s is := by
  induction is generalizing s with
  | nil => trivial
  | cons i is ih => exact ⟨h i (by simp), ih _ fun j hj => h j (by simp [hj])⟩

theorem forall_of_along (M : Machine σ ι ο) {P : σ → ι → Prop} {Q : ι → Prop}
    (hQ : ∀ s i, P s i → Q i) (s : σ) (is : List ι) (h : Along M P s is) : ∀ i ∈ is, Q i := by
  induction is generalizing s with
  | nil => simp
  | cons i is ih => exact List.forall_mem_cons.mpr ⟨hQ s i h.1, ih _ h.2⟩

instance decidableAlong (M : Machine σ ι ο) (P : σ → ι → Prop) [∀ s i, Decidable (P s i)] :
    (s : σ) → (is : List ι) → Decidable (Along M P s is)
  | _, [] => isTrue trivial
  | s, i :: is =>
    have := decidableAlong M P (M s i).1 is
    inferInstanceAs (Decidable (P s i ∧ Along M P (M s i).1 is))

instance decidableAlways (M : Machine σ ι ο) (C : σ → Prop) [∀ s, Decidable (C s)] :
    (s : σ) → (is : List ι) → Decidable (Always M C s is)
  | s, [] => inferInstanceAs (Decidable (C s))
  | s, i :: is =>
    have := decidableAlways M C (M s i).1 is
    inferInstanceAs (Decidable (C s ∧ Always M C (M s i).1 is))

/-- A machine that carries more state, or emits other outputs, takes the same steps. -/
theorem along_proj {τ ο' : Type} (M : Machine σ ι ο) (N : Machine τ ι ο') (f : τ → σ)
    (hf : ∀ t i, f (N t i).1 = (M (f t) i).1) (P : σ → ι → Prop) (t : τ) (is : List ι) :
    Along N (fun t i => P (f t) i) t is ↔ Along M P (f t) is := by
  induction is generalizing t with
  | nil => exact Iff.rfl
  | cons i is ih => rw [along_cons, along_cons, ih, hf]

/-- What an invariant and the condition give at one step holds along the run. -/
theorem along_of_invariant (M : Machine σ ι ο) (P Q : σ → ι → Prop) (I : σ → Prop)
    (hstep : ∀ s i, I s → P s i → Q s i ∧ I (M s i).1) (is : List ι) (s : σ) (h : I s)
    (hP : Along M P s is) : Along M Q s is := by
  induction is generalizing s with
  | nil => trivial
  | cons i is ih =>
    obtain ⟨hq, hnext⟩ := hstep s i h hP.1
    exact ⟨hq, ih _ hnext hP.2⟩

/-- A property and a condition that say the same in every state with the invariant say
the same of a run. -/
theorem along_iff_of_invariant (M : Machine σ ι ο) (P Q : σ → ι → Prop) (I : σ → Prop)
    (hiff : ∀ s i, I s → (Q s i ↔ P s i)) (hstep : ∀ s i, I s → P s i → I (M s i).1) (s : σ)
    (is : List ι) (h : I s) : Along M Q s is ↔ Along M P s is := by
  induction is generalizing s with
  | nil => exact Iff.rfl
  | cons i is ih =>
    rw [along_cons, along_cons, hiff s i h]
    exact and_congr_right fun hp => ih _ (hstep s i h hp)

/-- A property of states that a step keeps exactly when its condition holds, in the runs
along which `R` holds. -/
theorem always_iff_of_along (M : Machine σ ι ο) (R P : σ → ι → Prop) (C I : σ → Prop)
    (hstep : ∀ s i, I s → R s i → I (M s i).1)
    (hiff : ∀ s i, I s → R s i → C s → (C (M s i).1 ↔ P s i)) (s : σ) (is : List ι) (h : I s)
    (hC : C s) (hR : Along M R s is) : Always M C s is ↔ Along M P s is := by
  induction is generalizing s with
  | nil => exact iff_of_true hC trivial
  | cons i is ih =>
    constructor
    · intro halways
      have hC' : C (M s i).1 := by
        cases is with
        | nil => exact halways.2
        | cons j js => exact halways.2.1
      exact ⟨(hiff s i h hR.1 hC).mp hC', (ih _ (hstep s i h hR.1) hC' hR.2).mp halways.2⟩
    · intro halong
      have hC' := (hiff s i h hR.1 hC).mpr halong.1
      exact ⟨hC, (ih _ (hstep s i h hR.1) hC' hR.2).mpr halong.2⟩

theorem always_iff_of_invariant (M : Machine σ ι ο) (P : σ → ι → Prop) (C I : σ → Prop)
    (hstep : ∀ s i, I s → I (M s i).1) (hiff : ∀ s i, I s → C s → (C (M s i).1 ↔ P s i)) (s : σ)
    (is : List ι) (h : I s) (hC : C s) : Always M C s is ↔ Along M P s is :=
  always_iff_of_along M (fun _ _ => True) P C I (fun s i hI _ => hstep s i hI)
    (fun s i hI _ => hiff s i hI) s is h hC
    (along_of_forall M s is fun _ _ => trivial)

/-- The invariant may mention the inputs and outputs of the run so far; `before`
and `tr` are those of an earlier part of the run. -/
theorem run_history_invariant (M : Machine σ ι ο) (P : σ → ι → Prop)
    (I : List ι → σ → List ο → Prop)
    (hstep : ∀ before s tr i, I before s tr → P s i →
      I (before ++ [i]) (M s i).1 (tr ++ (M s i).2))
    (is before : List ι) (s : σ) (tr : List ο) (h : I before s tr) (hP : Along M P s is) :
    I (before ++ is) (run M s is).1 (tr ++ (run M s is).2) := by
  induction is generalizing before s tr with
  | nil => simpa using h
  | cons i is ih =>
    have hnext := hstep before s tr i h hP.1
    have hrest := ih (before ++ [i]) (M s i).1 (tr ++ (M s i).2) hnext hP.2
    simpa [List.append_assoc] using hrest

/-- The usual form: an invariant of the state and of what was emitted. -/
theorem run_invariant (M : Machine σ ι ο) (P : σ → ι → Prop) (I : σ → List ο → Prop)
    (hstep : ∀ s tr i, I s tr → P s i → I (M s i).1 (tr ++ (M s i).2))
    (is : List ι) (s : σ) (h : I s []) (hP : Along M P s is) :
    I (run M s is).1 (run M s is).2 := by
  have hrun := run_history_invariant M P (fun _ => I)
    (fun _ s tr i hI hp => hstep s tr i hI hp) is [] s [] h hP
  simpa using hrun

/-- A set of states that no step leaves is not left by the rest of a run. -/
theorem run_persists (M : Machine σ ι ο) (P : σ → ι → Prop) (C : σ → Prop)
    (hstep : ∀ s i, C s → P s i → C (M s i).1) (s : σ) (before after : List ι)
    (hP : Along M P s (before ++ after)) (h : C (run M s before).1) :
    C (run M s (before ++ after)).1 := by
  rw [run_append]
  exact run_invariant M P (fun t _ => C t) (fun t _ i ht hp => hstep t i ht hp) after _ h
    ((along_append M P s before after).mp hP).2

/-- What every step emits, the run emits. -/
theorem run_outputs (M : Machine σ ι ο) (P : σ → ι → Prop) (Q : ο → Prop)
    (hstep : ∀ s i, P s i → ∀ o ∈ (M s i).2, Q o) (s : σ) (is : List ι) (hP : Along M P s is) :
    ∀ o ∈ (run M s is).2, Q o := by
  refine run_invariant M P (fun _ tr => ∀ o ∈ tr, Q o) ?_ is s (by simp) hP
  intro t tr i htr hp o ho
  rcases List.mem_append.mp ho with ho | ho
  · exact htr o ho
  · exact hstep t i hp o ho

/-- A run that emits what its inputs say. -/
theorem filterMap_run {ω : Type} (M : Machine σ ι ο) (P : σ → ι → Prop) (own : ο → Option ω)
    (val : ι → List ω) (hstep : ∀ s i, P s i → (M s i).2.filterMap own = val i) (s : σ)
    (is : List ι) (hP : Along M P s is) :
    (run M s is).2.filterMap own = is.flatMap val := by
  induction is generalizing s with
  | nil => rfl
  | cons i is ih =>
    rw [run_cons, List.filterMap_append, hstep s i hP.1, ih _ hP.2, List.flatMap_cons]

/-- The inputs that are consumed while `C` holds. -/
def during (M : Machine σ ι ο) (C : σ → Prop) [DecidablePred C] : σ → List ι → List ι
  | _, [] => []
  | s, i :: is => if C s then i :: during M C (M s i).1 is else []

theorem during_congr {ο' : Type} (M : Machine σ ι ο) (N : Machine σ ι ο')
    (h : ∀ s i, (N s i).1 = (M s i).1) (C : σ → Prop) [DecidablePred C] (s : σ) (is : List ι) :
    during N C s is = during M C s is := by
  induction is generalizing s with
  | nil => rfl
  | cons i is ih => rw [during, during, h, ih]

/-- A run that emits something only while `C` holds, and then what its inputs say. -/
theorem filterMap_run_during {ω : Type} (M : Machine σ ι ο) (P : σ → ι → Prop) (C I : σ → Prop)
    [DecidablePred C] (own : ο → Option ω) (val : ι → List ω)
    (hstep : ∀ s i, I s → P s i → I (M s i).1)
    (hin : ∀ s i, I s → P s i → C s → (M s i).2.filterMap own = val i)
    (hout : ∀ s i, I s → P s i → ¬ C s → (M s i).2.filterMap own = [] ∧ ¬ C (M s i).1) (s : σ)
    (is : List ι) (h : I s) (hP : Along M P s is) :
    (run M s is).2.filterMap own = (during M C s is).flatMap val := by
  have hafter : ∀ (is : List ι) (s : σ), I s → ¬ C s → Along M P s is →
      (run M s is).2.filterMap own = [] := by
    intro is
    induction is with
    | nil => exact fun _ _ _ _ => rfl
    | cons i is ih =>
      intro s hI hC hP
      obtain ⟨hnil, hnext⟩ := hout s i hI hP.1 hC
      rw [run_cons, List.filterMap_append, hnil, ih _ (hstep s i hI hP.1) hnext hP.2]
      rfl
  induction is generalizing s with
  | nil => rfl
  | cons i is ih =>
    by_cases hC : C s
    · rw [during, if_pos hC, run_cons, List.filterMap_append, hin s i h hP.1 hC,
        ih _ (hstep s i h hP.1) hP.2, List.flatMap_cons]
    · rw [during, if_neg hC, hafter _ s h hC hP, List.flatMap_nil]

/-- How often the value of `f` changes along the run. -/
def changes {α : Type} [DecidableEq α] (f : σ → α) (M : Machine σ ι ο) : σ → List ι → Nat
  | _, [] => 0
  | s, i :: is => (if f (M s i).1 = f s then 0 else 1) + changes f M (M s i).1 is

/-- A potential that never grows, and that every change lowers, bounds the number of changes. -/
theorem changes_le {α : Type} [DecidableEq α] (f : σ → α) (M : Machine σ ι ο) (φ : σ → Nat)
    (I : σ → Prop) (hstep : ∀ s i, I s → I (M s i).1)
    (hle : ∀ s i, I s → (if f (M s i).1 = f s then 0 else 1) + φ (M s i).1 ≤ φ s) (s : σ)
    (is : List ι) (h : I s) :
    changes f M s is ≤ φ s := by
  induction is generalizing s with
  | nil => exact Nat.zero_le _
  | cons i is ih =>
    have hhead := hle s i h
    have htail := ih _ (hstep s i h)
    simp only [changes]
    omega

/-! ## Runs that may be cut

A step may never come to its end. Then the run goes no further, and it has no result. -/

/-- The run, if `ends` holds of each of its steps. -/
def runEnding (M : Machine σ ι ο) (ends : σ → ι → Bool) : σ → List ι → Option (σ × List ο)
  | s, [] => some (s, [])
  | s, i :: is =>
    if ends s i then (runEnding M ends (M s i).1 is).map fun r => (r.1, (M s i).2 ++ r.2) else none

theorem runEnding_of_along (M : Machine σ ι ο) (ends : σ → ι → Bool) (s : σ) (is : List ι)
    (h : Along M (fun t i => ends t i = true) s is) :
    runEnding M ends s is = some (run M s is) := by
  induction is generalizing s with
  | nil => rfl
  | cons i is ih =>
    rw [runEnding, if_pos h.1, ih _ h.2]
    rfl

/-- A step that does not end cuts the run. -/
theorem runEnding_cut (M : Machine σ ι ο) (ends : σ → ι → Bool) (s : σ) (before : List ι) (i : ι)
    (after : List ι) (h : ends (run M s before).1 i = false) :
    runEnding M ends s (before ++ i :: after) = none := by
  induction before generalizing s with
  | nil =>
    rw [List.nil_append, runEnding, if_neg (by simpa using h)]
  | cons j before ih =>
    rw [List.cons_append, runEnding, ih _ h]
    simp

/-- Where every step ends with enough turns, one number of turns is enough for the whole run. -/
theorem along_enough (M : Machine σ ι ο) (ends : Nat → σ → ι → Bool) (s : σ) (is : List ι)
    (h : Along M (fun t i => ∃ enough, ∀ turns, enough ≤ turns → ends turns t i = true) s is) :
    ∃ enough, ∀ turns, enough ≤ turns → Along M (fun t i => ends turns t i = true) s is := by
  induction is generalizing s with
  | nil => exact ⟨0, fun _ _ => trivial⟩
  | cons i is ih =>
    obtain ⟨⟨m, hm⟩, hrest⟩ := h
    obtain ⟨k, hk⟩ := ih _ hrest
    exact ⟨max m k, fun turns hturns => ⟨hm turns (by omega), hk turns (by omega)⟩⟩

end PdaNetClient.Runs
