import Mathlib.Data.List.Infix

/-!
# Ordered half-open spans

A list of spans `[start, start + len)` in order and without overlap, kept by
their starts: the shape of a reassembly buffer. The first gap behind a position
bounds what can be read from there, and a chain that covers a stretch can be
read to its end. An insertion looks at the starts only, so it keeps the chain
exactly because no span crosses another.
-/
namespace PdaNetClient.Spans

set_option autoImplicit false

structure Span where
  start : Nat
  len : Nat
  deriving DecidableEq, Repr

namespace Span

def stop (s : Span) : Nat := s.start + s.len

def Has (s : Span) (j : Nat) : Prop := s.start ≤ j ∧ j < s.stop

/-- Two spans of different starts do not overlap. -/
def Apart (p s : Span) : Prop := s.start = p.start ∨ s.stop ≤ p.start ∨ p.stop ≤ s.start

instance (s : Span) (j : Nat) : Decidable (s.Has j) := inferInstanceAs (Decidable (_ ∧ _))

theorem start_le_stop (s : Span) : s.start ≤ s.stop := Nat.le_add_right _ _

theorem start_lt_stop {s : Span} (h : 0 < s.len) : s.start < s.stop := Nat.lt_add_of_pos_right h

end Span

/-- Ordered, without overlap, from `lo` on. -/
def Chain : Nat → List Span → Prop
  | _, [] => True
  | lo, s :: l => lo ≤ s.start ∧ Chain s.stop l

def Covers (l : List Span) (j : Nat) : Prop := ∃ s ∈ l, s.Has j

instance (l : List Span) (j : Nat) : Decidable (Covers l j) :=
  inferInstanceAs (Decidable (∃ s ∈ l, s.Has j))

/-- The position of the first gap behind `lo`. -/
def reach : Nat → List Span → Nat
  | lo, [] => lo
  | lo, s :: l => if s.start = lo then reach s.stop l else lo

/-- The walk to the first span that does not start before `p`; of two spans with
one start the longer stays. -/
def insert (p : Span) : List Span → List Span
  | [] => [p]
  | s :: l =>
    if s.start < p.start then s :: insert p l
    else if p.start < s.start then p :: s :: l
    else if s.len < p.len then p :: l
    else s :: l

variable {lo hi : Nat} {l : List Span} {p s : Span}

@[simp] theorem chain_cons : Chain lo (s :: l) ↔ lo ≤ s.start ∧ Chain s.stop l := Iff.rfl

@[simp] theorem covers_nil (j : Nat) : ¬ Covers [] j := by simp [Covers]

@[simp] theorem covers_cons {j : Nat} : Covers (s :: l) j ↔ s.Has j ∨ Covers l j := by simp [Covers]

theorem Chain.start_ge (h : Chain lo l) (hs : s ∈ l) : lo ≤ s.start := by
  induction l generalizing lo with
  | nil => cases hs
  | cons t l ih =>
    rcases List.mem_cons.mp hs with rfl | hs
    · exact h.1
    · exact (h.1.trans t.start_le_stop).trans (ih h.2 hs)

/-- The first span of a chain decides where it can begin. -/
theorem Chain.raise (h : Chain lo l) (hhi : ∀ s ∈ l, hi ≤ s.start) : Chain hi l := by
  cases l with
  | nil => trivial
  | cons s l => exact ⟨hhi s (by simp), h.2⟩

theorem le_reach (lo : Nat) (l : List Span) : lo ≤ reach lo l := by
  induction l generalizing lo with
  | nil => exact Nat.le_refl lo
  | cons s l ih =>
    unfold reach
    split
    · rename_i h
      exact h ▸ s.start_le_stop.trans (ih s.stop)
    · exact Nat.le_refl lo

/-- A covered stretch at the front of a chain has no gap. -/
theorem Chain.le_reach (h : Chain lo l) (hcov : ∀ j, lo ≤ j → j < hi → Covers l j) :
    hi ≤ reach lo l := by
  induction l generalizing lo with
  | nil =>
    by_contra hlt
    exact covers_nil lo (hcov lo (Nat.le_refl lo) (by simpa [reach] using hlt))
  | cons s l ih =>
    by_cases hhi : hi ≤ lo
    · exact hhi.trans (Spans.le_reach lo _)
    · have hstart : s.start = lo := by
        rcases covers_cons.mp (hcov lo (Nat.le_refl lo) (by omega)) with hs | ⟨t, ht, hs⟩
        · exact Nat.le_antisymm hs.1 h.1
        · have hge := h.2.start_ge ht
          exact Nat.le_antisymm ((s.start_le_stop.trans hge).trans hs.1) h.1
      rw [reach, if_pos hstart]
      refine ih h.2 fun j hj hlt => ?_
      rcases covers_cons.mp (hcov j (hstart ▸ s.start_le_stop.trans hj) hlt) with hs | hs
      · exact absurd hs.2 (by omega)
      · exact hs

/-! ## Insertion -/

theorem Chain.insert (h : Chain lo l) (hlo : lo ≤ p.start) (hpos : ∀ s ∈ l, 0 < s.len)
    (hapart : ∀ s ∈ l, Span.Apart p s) : Chain lo (insert p l) := by
  induction l generalizing lo with
  | nil => exact ⟨hlo, trivial⟩
  | cons s l ih =>
    have hlen := Span.start_lt_stop (hpos s (by simp))
    have hp := p.start_le_stop
    have hs := hapart s (by simp)
    unfold Span.Apart at hs
    unfold Spans.insert
    split
    · have hstop : s.stop ≤ p.start := by omega
      exact ⟨h.1, ih h.2 hstop (fun t ht => hpos t (by simp [ht])) fun t ht =>
        hapart t (by simp [ht])⟩
    · split
      · have hstop : p.stop ≤ s.start := by omega
        exact ⟨hlo, hstop, h.2⟩
      · split
        · refine ⟨hlo, h.2.raise fun t ht => ?_⟩
          have hbehind := h.2.start_ge ht
          have ht' := t.start_le_stop
          rcases hapart t (by simp [ht]) with hsame | hbefore | hafter <;> omega
        · exact h

theorem covers_insert_self (p : Span) (l : List Span) {j : Nat} (h : p.Has j) :
    Covers (insert p l) j := by
  induction l with
  | nil => exact covers_cons.mpr (.inl h)
  | cons s l ih =>
    unfold insert
    split
    · exact covers_cons.mpr (.inr ih)
    · split
      · exact covers_cons.mpr (.inl h)
      · split
        · exact covers_cons.mpr (.inl h)
        · -- the span already there has the same start and is no shorter
          refine covers_cons.mpr (.inl ?_)
          unfold Span.Has Span.stop at *
          omega

theorem covers_insert_of (p : Span) {l : List Span} {j : Nat} (h : Covers l j) :
    Covers (insert p l) j := by
  induction l with
  | nil => exact absurd h (covers_nil j)
  | cons s l ih =>
    rcases covers_cons.mp h with hs | hl
    · unfold insert
      split
      · exact covers_cons.mpr (.inl hs)
      · split
        · exact covers_cons.mpr (.inr h)
        · split
          · refine covers_cons.mpr (.inl ?_)
            unfold Span.Has Span.stop at *
            omega
          · exact h
    · unfold insert
      split
      · exact covers_cons.mpr (.inr (ih hl))
      · split
        · exact covers_cons.mpr (.inr h)
        · split
          · exact covers_cons.mpr (.inr hl)
          · exact h

end PdaNetClient.Spans
