import Mathlib.Data.List.Perm.Basic
import Mathlib.Data.List.Nodup

/-!
# Passes over a table

A pass visits every entry of a table once and may change or delete it. What it emits is
collected in order. A change of a single entry is a pass that leaves the others alone.
The rules below say what a pass keeps of the whole table from what each visit keeps of
its entry: keys, counts, and resources that are held or given back.
-/
namespace PdaNetClient.Sweep

set_option autoImplicit false

variable {α ο κ ρ : Type}

abbrev Visit (α ο : Type) := α → Option α × List ο

def sweep (f : Visit α ο) : List α → List α × List ο
  | [] => ([], [])
  | x :: xs => ((f x).1.toList ++ (sweep f xs).1, (f x).2 ++ (sweep f xs).2)

@[simp] theorem sweep_nil (f : Visit α ο) : sweep f [] = ([], []) := rfl

@[simp] theorem sweep_cons (f : Visit α ο) (x : α) (xs : List α) :
    sweep f (x :: xs) = ((f x).1.toList ++ (sweep f xs).1, (f x).2 ++ (sweep f xs).2) := rfl

/-- An entry behind a pass was left by the visit of an entry before it. -/
theorem mem_sweep {f : Visit α ο} {xs : List α} {y : α} :
    y ∈ (sweep f xs).1 ↔ ∃ x ∈ xs, (f x).1 = some y := by
  induction xs with
  | nil => simp
  | cons x xs ih => simp [ih]

theorem mem_sweep_out {f : Visit α ο} {xs : List α} {o : ο} :
    o ∈ (sweep f xs).2 ↔ ∃ x ∈ xs, o ∈ (f x).2 := by
  induction xs with
  | nil => simp
  | cons x xs ih => simp [ih]

/-- The visit of one entry, picked by its name; the others stay. -/
def only [DecidableEq κ] (name : α → κ) (k : κ) (f : Visit α ο) : Visit α ο := fun x =>
  if name x = k then f x else (some x, [])

@[elab_as_elim]
theorem only_cases [DecidableEq κ] {motive : Option α × List ο → Prop} (name : α → κ) (k : κ)
    (f : Visit α ο) (x : α) (other : motive (some x, [])) (named : name x = k → motive (f x)) :
    motive (only name k f x) := by
  unfold only
  split
  · rename_i h
    exact named h
  · exact other

/-- Keys are left alone or given up: no new one appears, and none twice. -/
theorem filterMap_sublist {f : Visit α ο} {key : α → Option κ} {xs : List α}
    (h : ∀ x ∈ xs, ∀ y, (f x).1 = some y → key y = none ∨ key y = key x) :
    ((sweep f xs).1.filterMap key).Sublist (xs.filterMap key) := by
  induction xs with
  | nil => simp
  | cons x xs ih =>
    have hrest := ih fun y hy => h y (by simp [hy])
    rw [sweep_cons, List.filterMap_append]
    cases hx : (f x).1 with
    | none =>
      rw [Option.toList_none, List.filterMap_nil, List.nil_append]
      exact hrest.trans (List.Sublist.filterMap key (List.sublist_cons_self x xs))
    | some y =>
      have hkey := h x (by simp) y hx
      cases hk : key x with
      | none =>
        have hy : key y = none := hkey.elim id fun he => he.trans hk
        simpa [hy, hk] using hrest
      | some k =>
        rcases hkey with hy | hy
        · simpa [hy, hk] using hrest.cons k
        · simpa [hy, hk] using hrest.cons_cons k

/-- Names that a visit does not touch. -/
theorem map_sublist {f : Visit α ο} {name : α → κ} {xs : List α}
    (h : ∀ x ∈ xs, ∀ y, (f x).1 = some y → name y = name x) :
    ((sweep f xs).1.map name).Sublist (xs.map name) := by
  have hsub : ((sweep f xs).1.filterMap (some ∘ name)).Sublist (xs.filterMap (some ∘ name)) :=
    filterMap_sublist fun x hx y hy => .inr (congrArg some (h x hx y hy))
  simpa only [List.filterMap_eq_map] using hsub

/-- Where keys are unique, a search for a key finds the entry that has it. -/
theorem find?_of_nodup {key : α → Option κ} {p : α → Bool} {k : κ} {xs : List α}
    (hp : ∀ x, p x = true ↔ key x = some k) (h : (xs.filterMap key).Nodup) {x : α} (hx : x ∈ xs)
    (hk : key x = some k) : xs.find? p = some x := by
  induction xs with
  | nil => cases hx
  | cons y ys ih =>
    cases hy : p y with
    | false =>
      have hne : y ≠ x := by
        rintro rfl
        simp [(hp y).mpr hk] at hy
      have hys : x ∈ ys := (List.mem_cons.mp hx).resolve_left (Ne.symm hne)
      have hsub : (ys.filterMap key).Nodup := ((List.sublist_cons_self y ys).filterMap key).nodup h
      rw [List.find?_cons_of_neg (by simp [hy]), ih hsub hys]
    | true =>
      rw [List.find?_cons_of_pos hy]
      rw [List.filterMap_cons_some ((hp y).mp hy)] at h
      rcases List.mem_cons.mp hx with rfl | hys
      · rfl
      · exact absurd (List.mem_filterMap.mpr ⟨x, hys, hk⟩) (List.nodup_cons.mp h).1

/-- Where keys are unique, the key tells the entry. -/
theorem eq_of_nodup [DecidableEq κ] {key : α → Option κ} {k : κ} {xs : List α}
    (h : (xs.filterMap key).Nodup) {x y : α} (hx : x ∈ xs) (hy : y ∈ xs) (hxk : key x = some k)
    (hyk : key y = some k) : x = y := by
  have hp : ∀ z, decide (key z = some k) = true ↔ key z = some k := fun z => decide_eq_true_iff
  exact Option.some.inj ((find?_of_nodup hp h hx hxk).symm.trans (find?_of_nodup hp h hy hyk))

/-- A pass that makes no entry satisfy `p` leaves no more of them. -/
theorem countP_le {f : Visit α ο} {p : α → Bool} {xs : List α}
    (h : ∀ x ∈ xs, ∀ y, (f x).1 = some y → p y = true → p x = true) :
    (sweep f xs).1.countP p ≤ xs.countP p := by
  induction xs with
  | nil => simp
  | cons x xs ih =>
    have hrest := ih fun y hy => h y (by simp [hy])
    have hhead : (f x).1.toList.countP p ≤ if p x then 1 else 0 := by
      cases hx : (f x).1 with
      | none => simp
      | some y =>
        cases hp : p y with
        | false => simp [hp]
        | true => simp [hp, h x (by simp) y hx hp]
    rw [sweep_cons, List.countP_append, List.countP_cons]
    omega

/-- A pass leaves a table without the name it picks. -/
theorem sweep_only_absent [DecidableEq κ] {f : Visit α ο} {name : α → κ} {k : κ} {xs : List α}
    (h : ∀ x ∈ xs, name x ≠ k) : (sweep (only name k f) xs).1 = xs := by
  induction xs with
  | nil => rfl
  | cons x xs ih =>
    have hrest := ih fun y hy => h y (by simp [hy])
    simp [only, h x (by simp), hrest]

/-- What a visit of one entry emits. -/
theorem mem_sweep_only_out [DecidableEq κ] {f : Visit α ο} {name : α → κ} {xs : List α} {x : α}
    {o : ο} (hname : (xs.map name).Nodup) (hx : x ∈ xs) :
    o ∈ (sweep (only name (name x) f) xs).2 ↔ o ∈ (f x).2 := by
  constructor
  · intro ho
    obtain ⟨y, hy, hyo⟩ := mem_sweep_out.mp ho
    by_cases hyx : name y = name x
    · rwa [only, if_pos hyx, List.inj_on_of_nodup_map hname hy hx hyx] at hyo
    · simp [only, hyx] at hyo
  · intro ho
    exact mem_sweep_out.mpr ⟨x, hx, by rwa [only, if_pos rfl]⟩

/-- A visit of one entry that makes it satisfy `p`. -/
theorem countP_only [DecidableEq κ] {f : Visit α ο} {name : α → κ} {p : α → Bool} {xs : List α}
    {x y : α} (hname : (xs.map name).Nodup) (hx : x ∈ xs) (hp : p x = false) (hy : (f x).1 = some y)
    (hpy : p y = true) :
    (sweep (only name (name x) f) xs).1.countP p = xs.countP p + 1 := by
  induction xs with
  | nil => cases hx
  | cons z zs ih =>
    obtain ⟨hz, hzs⟩ := List.nodup_cons.mp hname
    by_cases hzx : z = x
    · subst hzx
      have habsent : ∀ w ∈ zs, name w ≠ name z := fun w hw he => hz (he ▸ List.mem_map_of_mem hw)
      simp [sweep_only_absent habsent, only, hy, hp, hpy]
    · have hmem : x ∈ zs := (List.mem_cons.mp hx).resolve_left (Ne.symm hzx)
      have hne : name z ≠ name x := fun he => hz (he ▸ List.mem_map_of_mem hmem)
      simp [only, hne, List.countP_cons, ih hzs hmem, Nat.add_right_comm]

/-! ## One entry of a pass -/

/-- A search for a name finds the entry that has it. -/
theorem find?_name [DecidableEq κ] {name : α → κ} {xs : List α} {x : α} (h : (xs.map name).Nodup)
    (hx : x ∈ xs) :
    xs.find? (name · = name x) = some x := by
  have hkeys : (xs.filterMap (some ∘ name)).Nodup := by simpa only [List.filterMap_eq_map] using h
  exact find?_of_nodup (fun y => by simp) hkeys hx rfl

/-- Behind a pass, a search for a name finds what the visit left of the entry with it. -/
theorem find?_sweep [DecidableEq κ] {f : Visit α ο} {name : α → κ} {k : κ} {xs : List α}
    (h : (xs.map name).Nodup) (hf : ∀ x ∈ xs, ∀ y, (f x).1 = some y → name y = name x) :
    (sweep f xs).1.find? (name · = k) = (xs.find? (name · = k)).bind fun x => (f x).1 := by
  cases hfind : (sweep f xs).1.find? (name · = k) with
  | some y =>
    have hy : name y = k := by simpa using List.find?_some hfind
    obtain ⟨x, hx, hxy⟩ := mem_sweep.mp (List.mem_of_find?_eq_some hfind)
    have hxk : name x = k := (hf x hx y hxy).symm.trans hy
    have hfound := find?_name h hx
    rw [hxk] at hfound
    rw [hfound, Option.bind_some, hxy]
  | none =>
    cases hx : xs.find? (name · = k) with
    | none => rfl
    | some x =>
      have hmem := List.mem_of_find?_eq_some hx
      have hxk : name x = k := by simpa using List.find?_some hx
      rw [Option.bind_some]
      cases hxy : (f x).1 with
      | none => rfl
      | some y =>
        have hy := List.find?_eq_none.mp hfind y (mem_sweep.mpr ⟨x, hmem, hxy⟩)
        rw [hf x hmem y hxy] at hy
        exact absurd hxk (by simpa using hy)

/-- The outputs of a pass that belong to a name are those of the visit of its entry. -/
theorem filterMap_sweep [DecidableEq κ] {ω : Type} {f : Visit α ο} {name : α → κ}
    {own : ο → Option ω} {k : κ} {xs : List α} (h : (xs.map name).Nodup)
    (hf : ∀ x ∈ xs, name x ≠ k → (f x).2.filterMap own = []) :
    (sweep f xs).2.filterMap own = (xs.find? (name · = k)).elim [] fun x =>
      (f x).2.filterMap own := by
  induction xs with
  | nil => rfl
  | cons x xs ih =>
    obtain ⟨hx, hxs⟩ := List.nodup_cons.mp h
    have hrest := ih hxs fun y hy => hf y (by simp [hy])
    rw [sweep_cons, List.filterMap_append, hrest]
    by_cases hk : name x = k
    · have hnone : xs.find? (name · = k) = none := by
        refine List.find?_eq_none.mpr fun y hy => ?_
        have hne : name y ≠ k := fun he => hx (List.mem_map.mpr ⟨y, hy, he.trans hk.symm⟩)
        simpa using hne
      rw [hnone, List.find?_cons_of_pos (by simpa using hk)]
      simp
    · rw [hf x (by simp) hk, List.find?_cons_of_neg (by simpa using hk), List.nil_append]

/-- A visit of one name leaves what a pass does to another name, and the two may be swapped. -/
theorem sweep_only_swap [DecidableEq κ] (name : α → κ) {f g : Visit α ο} {a b : κ} {xs : List α}
    (hab : a ≠ b) (hf : ∀ x ∈ xs, ∀ y, (f x).1 = some y → name y = name x)
    (hg : ∀ x ∈ xs, ∀ y, (g x).1 = some y → name y = name x) :
    (sweep (only name b g) (sweep (only name a f) xs).1).1 =
      (sweep (only name a f) (sweep (only name b g) xs).1).1 ∧
      (sweep (only name b g) (sweep (only name a f) xs).1).2 = (sweep (only name b g) xs).2 := by
  induction xs with
  | nil => exact ⟨rfl, rfl⟩
  | cons x xs ih =>
    obtain ⟨htable, houts⟩ := ih (fun y hy => hf y (by simp [hy])) fun y hy => hg y (by simp [hy])
    have hsplit : ∀ (h : Visit α ο) (o : Option α) (ys : List α),
        sweep h (o.toList ++ ys) = ((o.bind fun y => (h y).1).toList ++ (sweep h ys).1,
          (o.elim [] fun y => (h y).2) ++ (sweep h ys).2) := by
      intro h o ys
      cases o <;> simp
    have hother : ∀ {k k' : κ} {u v : Visit α ο}, k ≠ k' → name x = k →
      (∀ y, (u x).1 = some y → name y = name x) →
        ((u x).1.bind fun y => (only name k' v y).1) = (u x).1 ∧
        ((u x).1.elim [] fun y => (only name k' v y).2) = [] := by
      intro k k' u v hne hx hu
      cases hy : (u x).1 with
      | none => exact ⟨rfl, rfl⟩
      | some y =>
        have hyk : ¬ name y = k' := fun he => hne (hx.symm.trans ((hu y hy).symm.trans he))
        simp [only, hyk]
    simp only [sweep_cons, hsplit, htable, houts]
    by_cases hxa : name x = a
    · have hxb : ¬ name x = b := fun he => hab (hxa.symm.trans he)
      obtain ⟨hbind, helim⟩ := hother (v := g) hab hxa (hf x (by simp))
      simp [only, hxa, hab] at hbind helim ⊢
      simp [hbind, helim]
    · by_cases hxb : name x = b
      · obtain ⟨hbind, -⟩ := hother (v := f) (Ne.symm hab) hxb (hg x (by simp))
        simp [only, hxb, Ne.symm hab] at hbind ⊢
        simp [hbind]
      · simp [only, hxa, hxb]

/-! ## Resources -/

/-- What a visit gives back and what its entry then holds is what the entry held. -/
def Keeps (holds : α → Option ρ) (gives : ο → Option ρ) (x : α) (r : Option α × List ο) : Prop :=
  r.2.filterMap gives ++ (r.1.bind holds).toList = (holds x).toList

/-- A pass loses and doubles no resource. -/
theorem sweep_perm {holds : α → Option ρ} {gives : ο → Option ρ} {f : Visit α ο} {xs : List α}
    (h : ∀ x ∈ xs, Keeps holds gives x (f x)) :
    ((sweep f xs).2.filterMap gives ++ (sweep f xs).1.filterMap holds).Perm
      (xs.filterMap holds) := by
  induction xs with
  | nil => simp
  | cons x xs ih =>
    have hrest := ih fun y hy => h y (by simp [hy])
    have hhead : (f x).1.toList.filterMap holds = ((f x).1.bind holds).toList := by
      cases (f x).1 with
      | none => rfl
      | some y => cases hy : holds y <;> simp [hy]
    have hwhole : (x :: xs).filterMap holds = (holds x).toList ++ xs.filterMap holds := by
      cases hx : holds x <;> simp [hx]
    have hx := h x (by simp)
    unfold Keeps at hx
    rw [hwhole, ← hx, sweep_cons, List.filterMap_append, List.filterMap_append, hhead]
    calc
      _ = (f x).2.filterMap gives ++ ((sweep f xs).2.filterMap gives ++
          (((f x).1.bind holds).toList ++ (sweep f xs).1.filterMap holds)) := by simp
      List.Perm _ ((f x).2.filterMap gives ++ (((f x).1.bind holds).toList ++
          ((sweep f xs).2.filterMap gives ++ (sweep f xs).1.filterMap holds))) :=
        List.Perm.append_left _ (List.perm_append_comm_assoc _ _ _)
      List.Perm _ _ := by
        rw [← List.append_assoc]
        exact List.Perm.append_left _ hrest

end PdaNetClient.Sweep
