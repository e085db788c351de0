import Mathlib.Data.Fintype.Card
import Mathlib.Logic.Relation

/-!
# Walks

Following a partial function from place to place until it has no next. Over finitely many
places a walk ends exactly if it never comes back to a place it has left.
-/
namespace PdaNetClient.Walks

open Relation

set_option autoImplicit false

variable {σ : Type} {next : σ → Option σ}

/-- The places from `s` to the one without a next. -/
inductive Walk (next : σ → Option σ) : σ → List σ → Prop where
  | stop {s : σ} : next s = none → Walk next s [s]
  | step {s t : σ} {l : List σ} : next s = some t → Walk next t l → Walk next s (s :: l)

def Step (next : σ → Option σ) (s t : σ) : Prop := next s = some t

def Reaches (next : σ → Option σ) : σ → σ → Prop := ReflTransGen (Step next)

/-- From no place that is reached does the walk come back to it. -/
def Acyclic (next : σ → Option σ) (s : σ) : Prop :=
  ∀ t, Reaches next s t → ¬ TransGen (Step next) t t

theorem Walk.unique {s : σ} {l m : List σ} (hl : Walk next s l) (hm : Walk next s m) : l = m := by
  induction hl generalizing m with
  | stop hnone =>
    cases hm with
    | stop => rfl
    | step hsome => rw [hnone] at hsome; cases hsome
  | step hsome _ ih =>
    cases hm with
    | stop hnone => rw [hnone] at hsome; cases hsome
    | step hsome' hwalk =>
      rw [hsome] at hsome'
      obtain rfl := Option.some.inj hsome'
      rw [ih hwalk]

theorem Walk.head_mem {s : σ} {l : List σ} (h : Walk next s l) : s ∈ l := by
  cases h <;> simp

theorem Walk.ne_nil {s : σ} {l : List σ} (h : Walk next s l) : l ≠ [] :=
  List.ne_nil_of_mem h.head_mem

/-- The rest of a walk from a place that is reached. -/
theorem Walk.rest {s t : σ} {l : List σ} (h : Walk next s l) (hreach : Reaches next s t) :
    ∃ m, Walk next t m ∧ m <:+ l := by
  induction hreach using ReflTransGen.head_induction_on generalizing l with
  | refl => exact ⟨l, h, List.suffix_refl l⟩
  | head hstep _ ih =>
    cases h with
    | stop hnone =>
      have hsome : next _ = some _ := hstep
      rw [hnone] at hsome
      cases hsome
    | step hsome hwalk =>
      obtain rfl := Option.some.inj (hsome.symm.trans hstep)
      obtain ⟨m, hm, hsuffix⟩ := ih hwalk
      exact ⟨m, hm, hsuffix.trans (List.suffix_cons _ _)⟩

theorem Walk.mem_iff {s t : σ} {l : List σ} (h : Walk next s l) : t ∈ l ↔ Reaches next s t := by
  constructor
  · intro hmem
    induction h with
    | stop => exact List.mem_singleton.mp hmem ▸ ReflTransGen.refl
    | step hsome _ ih =>
      cases hmem with
      | head => exact ReflTransGen.refl
      | tail _ hmem => exact ReflTransGen.head hsome (ih hmem)
  · intro hreach
    obtain ⟨m, hm, hsuffix⟩ := h.rest hreach
    exact hsuffix.subset hm.head_mem

/-- A place that is left and come back to would have a walk shorter than its own. -/
theorem Walk.acyclic {s : σ} {l : List σ} (h : Walk next s l) : Acyclic next s := by
  intro t hreach hcycle
  obtain ⟨m, hm, -⟩ := h.rest hreach
  obtain ⟨u, hstep, hback⟩ := TransGen.head'_iff.mp hcycle
  cases hm with
  | stop hnone =>
    have hsome : next t = some u := hstep
    rw [hnone] at hsome
    cases hsome
  | @step _ _ m hsome hwalk =>
    obtain rfl := Option.some.inj (hsome.symm.trans hstep)
    obtain ⟨k, hk, hsuffix⟩ := hwalk.rest hback
    have hsame := hk.unique (.step hsome hwalk)
    have hle := hsuffix.length_le
    rw [hsame, List.length_cons] at hle
    omega

theorem exists_walk_of_acyclic [Finite σ] {s : σ} (h : Acyclic next s) : ∃ l, Walk next s l := by
  let below (a b : σ) : Prop := Reaches next s b ∧ TransGen (Step next) b a
  have htrans : IsTrans σ below := ⟨fun a b c hab hbc => ⟨hbc.1, hbc.2.trans hab.2⟩⟩
  have hirrefl : Std.Irrefl below := ⟨fun a ha => h a ha.1 ha.2⟩
  have hwf : WellFounded below := Finite.wellFounded_of_trans_of_irrefl below
  have hall : ∀ t, Reaches next s t → ∃ l, Walk next t l := by
    intro t
    induction t using hwf.induction with
    | _ t ih =>
      intro hreach
      cases hnext : next t with
      | none => exact ⟨[t], .stop hnext⟩
      | some u =>
        obtain ⟨l, hl⟩ := ih u ⟨hreach, .single hnext⟩ (hreach.tail hnext)
        exact ⟨t :: l, .step hnext hl⟩
  exact hall s .refl

end PdaNetClient.Walks
