import PdaNetClient.Runs
import Mathlib.Data.List.Perm.Basic
import Mathlib.Data.List.Pairwise

/-!
# Interleaved parts

A machine whose state holds the states of others, which come and go. `view` is the state
of one of them while it is there, `told` what a step of the whole gives to it, and `own`
picks its outputs. Where every step of the whole is what the part does of it, a run of the
whole is a run of the part. Steps of different parts commute, and so do all orders of them.
-/
namespace PdaNetClient.Interleaving

open Runs

set_option autoImplicit false

variable {σ ι ο τ κ ω : Type}

structure Part (σ ι ο τ κ ω : Type) where
  view : σ → Option τ
  told : σ → τ → ι → List κ
  own : ο → Option ω

namespace Part

def outs (q : Part σ ι ο τ κ ω) (tr : List ο) : List ω := tr.filterMap q.own

/-- What a part is told along a run of the whole, while it is there. -/
def heard (q : Part σ ι ο τ κ ω) (M : Machine σ ι ο) : σ → List ι → List κ
  | _, [] => []
  | s, i :: is => (q.view s).elim [] (q.told s · i) ++ q.heard M (M s i).1 is

/-- A step of the whole, for the part: the part does what it is told, and is left so or
is gone. A part that is gone stays so and emits nothing. -/
structure Alone (q : Part σ ι ο τ κ ω) (M : Machine σ ι ο) (N : Machine τ κ ω) (s : σ)
    (i : ι) : Prop where
  outs : ∀ t, q.view s = some t → q.outs (M s i).2 = (run N t (q.told s t i)).2
  left : ∀ t, q.view s = some t → ∀ t', q.view (M s i).1 = some t' → t' = (run N t (q.told s t i)).1
  gone : q.view s = none → q.view (M s i).1 = none ∧ q.outs (M s i).2 = []

variable {q : Part σ ι ο τ κ ω} {M : Machine σ ι ο} {N : Machine τ κ ω}

@[simp] theorem outs_nil : q.outs [] = [] := rfl

@[simp] theorem outs_append (xs ys : List ο) : q.outs (xs ++ ys) = q.outs xs ++ q.outs ys :=
  List.filterMap_append

theorem heard_cons_some {s : σ} {t : τ} (h : q.view s = some t) (i : ι) (is : List ι) :
    q.heard M s (i :: is) = q.told s t i ++ q.heard M (M s i).1 is := by
  simp [heard, h]

theorem heard_cons_none {s : σ} (h : q.view s = none) (i : ι) (is : List ι) :
    q.heard M s (i :: is) = q.heard M (M s i).1 is := by
  simp [heard, h]

theorem run_gone (s : σ) (is : List ι) (halone : Along M (q.Alone M N) s is) (h : q.view s = none) :
    q.view (run M s is).1 = none ∧ q.outs (run M s is).2 = [] ∧ q.heard M s is = [] := by
  induction is generalizing s with
  | nil => exact ⟨h, rfl, rfl⟩
  | cons i is ih =>
    obtain ⟨hnext, houts⟩ := halone.1.gone h
    obtain ⟨hview, hrest, hheard⟩ := ih _ halone.2 hnext
    exact ⟨hview, by simp [houts, hrest], by rw [heard_cons_none h, hheard]⟩

/-- A run of the whole is the run of the part on what it was told. -/
theorem run_alone (s : σ) (is : List ι) (halone : Along M (q.Alone M N) s is) {t : τ}
    (h : q.view s = some t) :
    q.outs (run M s is).2 = (run N t (q.heard M s is)).2 ∧
      ∀ t', q.view (run M s is).1 = some t' → t' = (run N t (q.heard M s is)).1 := by
  induction is generalizing s t with
  | nil =>
    refine ⟨rfl, fun t' ht' => ?_⟩
    rw [run_nil, h] at ht'
    exact (Option.some.inj ht').symm
  | cons i is ih =>
    have houts := halone.1.outs t h
    have hleft := halone.1.left t h
    rw [heard_cons_some h, run_append, run_cons]
    cases hnext : q.view (M s i).1 with
    | none =>
      obtain ⟨hview, hrest, hheard⟩ := run_gone _ is halone.2 hnext
      refine ⟨by simp [houts, hrest, hheard], fun t' ht' => ?_⟩
      rw [hview] at ht'
      cases ht'
    | some t' =>
      obtain rfl := hleft t' hnext
      obtain ⟨hrest, hlast⟩ := ih _ halone.2 hnext
      exact ⟨by simp [houts, hrest], hlast⟩

/-- A condition on the steps of the whole that gives one on those of the part gives it
along the run of the part. -/
theorem along_alone {P : σ → ι → Prop} {Q : τ → κ → Prop} (halone : ∀ s i, P s i → q.Alone M N s i)
    (htold : ∀ s i t, P s i → q.view s = some t → Along N Q t (q.told s t i)) (s : σ) (is : List ι)
    (hP : Along M P s is) {t : τ} (h : q.view s = some t) : Along N Q t (q.heard M s is) := by
  induction is generalizing s t with
  | nil => trivial
  | cons i is ih =>
    rw [heard_cons_some h, along_append]
    refine ⟨htold s i t hP.1 h, ?_⟩
    cases hnext : q.view (M s i).1 with
    | none =>
      have hrest : Along M (q.Alone M N) (M s i).1 is :=
        along_of_invariant M P _ (fun _ => True) (fun s i _ hp => ⟨halone s i hp, trivial⟩) is _
          trivial hP.2
      rw [(run_gone _ is hrest hnext).2.2]
      trivial
    | some t' =>
      obtain rfl := (halone s i hP.1).left t h t' hnext
      exact ih _ hP.2 hnext

end Part

/-- A machine that acts as another one on some of its inputs, and ignores the rest. -/
theorem run_embedded (M : Machine σ ι ο) (N : Machine τ κ ω) (f : τ → σ) (g : ω → ο)
    (sel : ι → Option κ)
    (hsel : ∀ t i k, sel i = some k → M (f t) i = (f (N t k).1, (N t k).2.map g))
    (hskip : ∀ t i, sel i = none → M (f t) i = (f t, [])) (t : τ) (is : List ι) :
    run M (f t) is = (f (run N t (is.filterMap sel)).1, (run N t (is.filterMap sel)).2.map g) := by
  induction is generalizing t with
  | nil => rfl
  | cons i is ih =>
    cases hi : sel i with
    | none => rw [run_cons, hskip t i hi, ih, List.filterMap_cons_none hi, List.nil_append]
    | some k =>
      rw [run_cons, hsel t i k hi, ih, List.filterMap_cons_some hi, run_cons, List.map_append]

theorem along_embedded (M : Machine σ ι ο) (N : Machine τ κ ω) (f : τ → σ) (g : ω → ο)
    (sel : ι → Option κ)
    (hsel : ∀ t i k, sel i = some k → M (f t) i = (f (N t k).1, (N t k).2.map g))
    (hskip : ∀ t i, sel i = none → M (f t) i = (f t, [])) {P : σ → ι → Prop} {Q : τ → κ → Prop}
    (hQ : ∀ t i k, sel i = some k → P (f t) i → Q t k) (t : τ) (is : List ι)
    (h : Along M P (f t) is) :
    Along N Q t (is.filterMap sel) := by
  induction is generalizing t with
  | nil => trivial
  | cons i is ih =>
    obtain ⟨hi, hrest⟩ := h
    cases hk : sel i with
    | none =>
      rw [hskip t i hk] at hrest
      rw [List.filterMap_cons_none hk]
      exact ih t hrest
    | some k =>
      rw [hsel t i k hk] at hrest
      rw [List.filterMap_cons_some hk]
      exact ⟨hQ t i k hk hi, ih _ hrest⟩

/-! ## Commuting steps -/

/-- Two steps end in the same state in either order, with the same outputs in some order. -/
def Commutes (M : Machine σ ι ο) (s : σ) (i j : ι) : Prop :=
  (M (M s i).1 j).1 = (M (M s j).1 i).1 ∧
    ((M s i).2 ++ (M (M s i).1 j).2).Perm ((M s j).2 ++ (M (M s j).1 i).2)

/-- A batch of steps that commute pairwise may be taken in any order. -/
theorem run_perm (M : Machine σ ι ο) (I : σ → Prop) (A : ι → Prop) (C : ι → ι → Prop)
    (hsymm : ∀ i j, C i j → C j i) (hstep : ∀ s i, I s → A i → I (M s i).1)
    (hC : ∀ s i j, I s → A i → A j → C i j → Commutes M s i j) {is js : List ι} (hperm : is.Perm js)
    (s : σ) (h : I s) (hA : ∀ i ∈ is, A i) (hpair : is.Pairwise C) :
    (run M s is).1 = (run M s js).1 ∧ (run M s is).2.Perm (run M s js).2 := by
  induction hperm generalizing s with
  | nil => exact ⟨rfl, .refl _⟩
  | @cons i is js _ ih =>
    obtain ⟨hi, hrest⟩ := List.forall_mem_cons.mp hA
    obtain ⟨hstate, houts⟩ := ih _ (hstep s i h hi) hrest (List.pairwise_cons.mp hpair).2
    exact ⟨hstate, houts.append_left _⟩
  | swap i j is =>
    have hji : C j i := (List.pairwise_cons.mp hpair).1 i (by simp)
    obtain ⟨hstate, houts⟩ := hC s j i h (hA j (by simp)) (hA i (by simp)) hji
    simp only [run_cons, hstate, true_and, ← List.append_assoc]
    exact houts.append_right _
  | @trans is js ks hij _ ih ih' =>
    obtain ⟨hstate, houts⟩ := ih s h hA hpair
    have hA' : ∀ i ∈ js, A i := fun i hi => hA i (hij.mem_iff.mpr hi)
    obtain ⟨hstate', houts'⟩ := ih' s h hA' ((hij.pairwise_iff fun hc => hsymm _ _ hc).mp hpair)
    exact ⟨hstate.trans hstate', houts.trans houts'⟩

/-! ## Groups of steps -/

theorem run_flatten (M : Machine σ ι ο) (s : σ) (groups : List (List ι)) :
    run (run M) s groups = run M s groups.flatten := by
  induction groups generalizing s with
  | nil => rfl
  | cons is groups ih => rw [List.flatten_cons, run_append, run_cons, ih]

/-- A step that commutes with each of a group commutes with the group. -/
theorem commutes_group (M : Machine σ ι ο) {i : ι} {js : List ι}
    (h : ∀ s, ∀ j ∈ js, Commutes M s i j) (s : σ) :
    (run M (M s i).1 js).1 = (M (run M s js).1 i).1 ∧
      ((M s i).2 ++ (run M (M s i).1 js).2).Perm ((run M s js).2 ++ (M (run M s js).1 i).2) := by
  induction js generalizing s with
  | nil => exact ⟨rfl, by simp⟩
  | cons j js ih =>
    obtain ⟨hstate, houts⟩ := h s j List.mem_cons_self
    obtain ⟨hstate', houts'⟩ := ih (fun s k hk => h s k (List.mem_cons_of_mem j hk)) (M s j).1
    rw [run_cons, run_cons, hstate]
    refine ⟨hstate', ?_⟩
    calc (M s i).2 ++ ((M (M s i).1 j).2 ++ (run M (M (M s j).1 i).1 js).2)
        = ((M s i).2 ++ (M (M s i).1 j).2) ++ (run M (M (M s j).1 i).1 js).2 :=
      (List.append_assoc _ _ _).symm
      _ |>.Perm (((M s j).2 ++ (M (M s j).1 i).2) ++ (run M (M (M s j).1 i).1 js).2) :=
        houts.append_right _
      _ |>.Perm ((M s j).2 ++ ((run M (M s j).1 js).2 ++ (M (run M (M s j).1 js).1 i).2)) := by
        rw [List.append_assoc]
        exact houts'.append_left _
      _ = ((M s j).2 ++ (run M (M s j).1 js).2) ++ (M (run M (M s j).1 js).1 i).2 :=
        (List.append_assoc _ _ _).symm

/-- Groups whose steps commute with each other commute. -/
theorem commutes_groups (M : Machine σ ι ο) {is js : List ι}
    (h : ∀ s, ∀ i ∈ is, ∀ j ∈ js, Commutes M s i j) (s : σ) :
    Commutes (run M) s is js := by
  induction is generalizing s with
  | nil => exact ⟨rfl, by simp⟩
  | cons i is ih =>
    obtain ⟨hstate, houts⟩ := commutes_group M (fun s j hj => h s i List.mem_cons_self j hj) s
    obtain ⟨hstate', houts'⟩ := ih (fun s k hk => h s k (List.mem_cons_of_mem i hk)) (M s i).1
    rw [hstate] at hstate' houts'
    refine ⟨hstate', ?_⟩
    calc ((M s i).2 ++ (run M (M s i).1 is).2) ++ (run M (run M (M s i).1 is).1 js).2
        = (M s i).2 ++ ((run M (M s i).1 is).2 ++ (run M (run M (M s i).1 is).1 js).2) :=
      List.append_assoc _ _ _
      _ |>.Perm ((M s i).2 ++ ((run M (M s i).1 js).2 ++ (run M (M (run M s js).1 i).1 is).2)) :=
        houts'.append_left _
      _ = ((M s i).2 ++ (run M (M s i).1 js).2) ++ (run M (M (run M s js).1 i).1 is).2 :=
        (List.append_assoc _ _ _).symm
      _ |>.Perm (((run M s js).2 ++ (M (run M s js).1 i).2) ++
        (run M (M (run M s js).1 i).1 is).2) := houts.append_right _
      _ = (run M s js).2 ++ ((M (run M s js).1 i).2 ++ (run M (M (run M s js).1 i).1 is).2) :=
        List.append_assoc _ _ _

end PdaNetClient.Interleaving
