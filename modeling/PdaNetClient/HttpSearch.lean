import PdaNetClient.Http
import PdaNetClient.Reading

/-!
# What `find_data` reads and finds

The search with every byte it looks at. It compares the whole value wherever its first
byte stands, and once more two bytes before the end, whatever stands there; so it leaves the
segment where the segment ends in the beginning of the value.
-/
namespace PdaNetClient.Http

open Reading

set_option autoImplicit false

abbrev Read := Reader Nat UInt8

/-- `strncasecmp(value, data + off, strlen(value)) == 0`, up to the first difference. -/
def strncasecmp : Bytes → Nat → Read Bool
  | [], _ => pure true
  | c :: value, off => do
    let b ← look off
    if toLower c = toLower b then strncasecmp value (off + 1) else pure false

def readSkip (c : UInt8) : Nat → Nat → Read (Nat × Nat)
  | off, 0 => pure (off, 0)
  | off, len + 1 => do
    let b ← look off
    if b ≠ c ∧ len + 1 > 2 then readSkip c (off + 1) len else pure (off, len + 1)

def readFindLoop (value : Bytes) : Nat → Nat → Nat → Read (Option Nat)
  | 0, _, _ => pure none
  | fuel + 1, off, len =>
    if len > 2 then do
      let p ← readSkip (value.getD 0 0) off len
      let found ← strncasecmp value p.1
      if found then pure (some p.1) else readFindLoop value fuel (p.1 + 1) (p.2 - 1)
    else pure none

/-- `find_data` -/
def readFindData (dataLen : Nat) (value : Bytes) : Read (Option Nat) :=
  readFindLoop value dataLen 0 dataLen

/-! ## The values -/

section

variable (mem : Memory)

theorem matchesAt_cons (c : UInt8) (value : Bytes) (off : Nat) :
    matchesAt mem (c :: value) off =
      (decide (toLower c = toLower (mem off)) && matchesAt mem value (off + 1)) := by
  simp [matchesAt, List.range_succ_eq_map, Function.comp_def, Nat.add_right_comm, Nat.add_assoc]
  rfl

theorem strncasecmp_value (value : Bytes) (off : Nat) :
    (strncasecmp value off).value mem = matchesAt mem value off := by
  induction value generalizing off with
  | nil => rfl
  | cons c value ih =>
    rw [matchesAt_cons, strncasecmp, value_bind, value_look, value_ite, ih]
    by_cases h : toLower c = toLower (mem off) <;> simp [h]

theorem readSkip_value (c : UInt8) (off len : Nat) :
    (readSkip c off len).value mem = skipToFirst mem c off len := by
  induction len generalizing off with
  | zero => rfl
  | succ len ih =>
    rw [readSkip, skipToFirst, value_bind, value_look, value_ite, ih]
    rfl

theorem readFindLoop_value (value : Bytes) (fuel off len : Nat) :
    (readFindLoop value fuel off len).value mem = findLoop mem value fuel off len := by
  induction fuel generalizing off len with
  | zero => rfl
  | succ fuel ih =>
    rw [readFindLoop, findLoop]
    by_cases hlen : len > 2
    · rw [if_pos hlen, if_pos hlen, value_bind, readSkip_value, value_bind, strncasecmp_value,
        value_ite, ih]
      rfl
    · rw [if_neg hlen, if_neg hlen]
      rfl

theorem readFindData_value (dataLen : Nat) (value : Bytes) :
    (readFindData dataLen value).value mem = findData mem dataLen value :=
  readFindLoop_value mem value dataLen 0 dataLen

end

/-! ## Occurrences in the segment -/

section

variable (data value : Bytes)

/-- From `i` on the segment agrees with the value, as far as both go. -/
def AgreesAt (i : Nat) : Prop :=
  ∀ k, k < value.length → i + k < data.length →
    toLower (value.getD k 0) = toLower (data.getD (i + k) 0)

/-- The value stands at `i`, its first byte as it is and the others in either case. -/
def OccursAt (i : Nat) : Prop :=
  i + value.length ≤ data.length ∧ data.getD i 0 = value.getD 0 0 ∧ AgreesAt data value i

/-- The segment ends in a beginning of the value that is compared: of three bytes or more, the first
as it is, or of two behind a byte that is not the first. -/
def CutAt (i : Nat) : Prop :=
  data.length < i + value.length ∧ AgreesAt data value i ∧
    (i + 3 ≤ data.length ∧ data.getD i 0 = value.getD 0 0 ∨
      i + 2 = data.length ∧ 0 < i ∧ data.getD (i - 1) 0 ≠ value.getD 0 0)

def FirstAt (i : Nat) : Prop := OccursAt data value i ∧ ∀ j < i, ¬ OccursAt data value j

/-- The value occurs nowhere, nor is it cut at the end. -/
def Absent : Prop := ∀ i, ¬ OccursAt data value i ∧ ¬ CutAt data value i

end

section

variable {data value : Bytes} {mem : Memory}

theorem agreesAt_nil (i : Nat) : AgreesAt data [] i := fun _ hk => absurd hk (Nat.not_lt_zero _)

theorem agreesAt_cons (c : UInt8) (i : Nat) :
    AgreesAt data (c :: value) i ↔ (i < data.length → toLower c = toLower (data.getD i 0)) ∧
    AgreesAt data value (i + 1) := by
  constructor
  · intro h
    refine ⟨fun hi => h 0 (by simp) hi, fun k hk hik => ?_⟩
    have := h (k + 1) (by simpa using hk) (by omega)
    rwa [List.getD_cons_succ, ← Nat.add_assoc, Nat.add_right_comm] at this
  · intro ⟨h0, h⟩ k hk hik
    cases k with
    | zero => exact h0 hik
    | succ k =>
      have := h k (by simpa using hk) (by omega)
      rwa [List.getD_cons_succ, ← Nat.add_assoc, Nat.add_right_comm]

/-- The memory holds the segment. -/
def HoldsSegment (mem : Memory) (data : Bytes) : Prop := ∀ i < data.length, mem i = data.getD i 0

theorem holds_memoryOf (data : Bytes) (after : Memory) :
    HoldsSegment (memoryOf data after) data := by
  intro i hi
  simp [memoryOf, hi]

/-- A value that agrees is found inside the segment, or compared beyond it. -/
theorem strncasecmp_agrees (hmem : HoldsSegment mem data) {i : Nat} (h : AgreesAt data value i) :
    (i + value.length ≤ data.length → (strncasecmp value i).value mem = true ∧
        (strncasecmp value i).Within (· < data.length) mem) ∧
      (i ≤ data.length → data.length < i + value.length →
        ¬ (strncasecmp value i).Within (· < data.length) mem) := by
  induction value generalizing i with
  | nil =>
    refine ⟨fun _ => ⟨rfl, within_pure _ _ _⟩, fun hi hlt => ?_⟩
    simp at hlt
    omega
  | cons c value ih =>
    obtain ⟨hc, hrest⟩ := (agreesAt_cons c i).mp h
    obtain ⟨hin, hout⟩ := ih hrest
    rw [strncasecmp, value_bind, within_bind, value_look, within_look]
    constructor
    · intro hlen
      rw [List.length_cons] at hlen
      have hi : i < data.length := by omega
      have heq : toLower c = toLower (mem i) := by rw [hmem i hi]; exact hc hi
      rw [if_pos heq]
      exact ⟨(hin (by omega)).1, hi, (hin (by omega)).2⟩
    · intro _ hlen hwithin
      rw [List.length_cons] at hlen
      have hi := hwithin.1
      have heq : toLower c = toLower (mem i) := by rw [hmem i hi]; exact hc hi
      rw [if_pos heq] at hwithin
      exact hout hi (by omega) hwithin.2

theorem strncasecmp_differs (hmem : HoldsSegment mem data) {i : Nat} (h : ¬ AgreesAt data value i) :
    (strncasecmp value i).value mem = false ∧
    (strncasecmp value i).Within (· < data.length) mem := by
  induction value generalizing i with
  | nil => exact absurd (agreesAt_nil i) h
  | cons c value ih =>
    have hi : i < data.length := by
      refine Nat.lt_of_not_le fun hle => h fun k _ hik => ?_
      omega
    rw [strncasecmp, value_bind, within_bind, value_look, within_look]
    by_cases heq : toLower c = toLower (mem i)
    · rw [hmem i hi] at heq
      have hrest := ih fun hrest => h ((agreesAt_cons c i).mpr ⟨fun _ => heq, hrest⟩)
      rw [hmem i hi, if_pos heq]
      exact ⟨hrest.1, hi, hrest.2⟩
    · rw [if_neg heq]
      exact ⟨rfl, hi, within_pure _ _ _⟩

/-! ## One position of the search -/

theorem skip_step {c : UInt8} {off : Nat} (len : Nat) (h : mem off ≠ c) (hlen : 2 ≤ len) :
    (readSkip c off (len + 1)).value mem = (readSkip c (off + 1) len).value mem ∧
      ∀ P, (readSkip c off (len + 1)).Within P mem ↔
      P off ∧ (readSkip c (off + 1) len).Within P mem := by
  have hskip : mem off ≠ c ∧ len + 1 > 2 := ⟨h, by omega⟩
  rw [readSkip, value_bind, value_look, if_pos hskip]
  refine ⟨rfl, fun P => ?_⟩
  rw [within_bind, within_look, value_look, if_pos hskip]

theorem skip_stop (mem : Memory) (c : UInt8) (off len : Nat) (h : mem off = c ∨ len < 2) :
    (readSkip c off (len + 1)).value mem = (off, len + 1) ∧
      ∀ P, (readSkip c off (len + 1)).Within P mem ↔ P off := by
  have hstop : ¬ (mem off ≠ c ∧ len + 1 > 2) := fun hboth => h.elim hboth.1 fun hlen => by omega
  rw [readSkip, value_bind, value_look, if_neg hstop]
  refine ⟨rfl, fun P => ?_⟩
  rw [within_bind, within_look, value_look, if_neg hstop]
  exact and_iff_left (within_pure _ _ _)

/-- A pass that stops to compare at `p`. -/
theorem find_pass (value : Bytes) (mem : Memory) (fuel off len : Nat) (hlen : 2 < len)
    {p : Nat × Nat} (h : (readSkip (value.getD 0 0) off len).value mem = p) :
    (readFindLoop value (fuel + 1) off len).value mem =
        (if (strncasecmp value p.1).value mem then some p.1
        else (readFindLoop value fuel (p.1 + 1) (p.2 - 1)).value mem) ∧
      ∀ P, (readFindLoop value (fuel + 1) off len).Within P mem ↔
        (readSkip (value.getD 0 0) off len).Within P mem ∧ (strncasecmp value p.1).Within P mem ∧
          ((strncasecmp value p.1).value mem = false →
            (readFindLoop value fuel (p.1 + 1) (p.2 - 1)).Within P mem) := by
  rw [readFindLoop, if_pos hlen, value_bind, h, value_bind, value_ite]
  refine ⟨rfl, fun P => ?_⟩
  rw [within_bind, h, within_bind, within_ite]
  cases (strncasecmp value p.1).value mem <;> simp

/-- The search passes over a byte that is not the first of the value. -/
theorem find_skip (fuel len : Nat) {off : Nat} (hlen : 3 < len) (h : mem off ≠ value.getD 0 0) :
    (readFindLoop value (fuel + 1) off len).value mem =
      (readFindLoop value (fuel + 1) (off + 1) (len - 1)).value mem ∧
      ∀ P, (readFindLoop value (fuel + 1) off len).Within P mem ↔
        P off ∧ (readFindLoop value (fuel + 1) (off + 1) (len - 1)).Within P mem := by
  obtain ⟨len, rfl⟩ : ∃ n, len = n + 1 := ⟨len - 1, by omega⟩
  obtain ⟨hvalue, hwithin⟩ := skip_step len h (by omega)
  obtain ⟨hleft, hleft'⟩ := find_pass value mem fuel off (len + 1) (by omega) rfl
  obtain ⟨hright, hright'⟩ := find_pass value mem fuel (off + 1) len (by omega) rfl
  rw [Nat.add_sub_cancel, hleft, hright, hvalue]
  refine ⟨rfl, fun P => ?_⟩
  rw [hleft', hright', hwithin, hvalue, and_assoc]

theorem find_here (fuel len : Nat) {off : Nat} (hlen : 2 < len) (h : mem off = value.getD 0 0) :
    (readFindLoop value (fuel + 1) off len).value mem =
        (if (strncasecmp value off).value mem then some off
        else (readFindLoop value fuel (off + 1) (len - 1)).value mem) ∧
      ∀ P, (readFindLoop value (fuel + 1) off len).Within P mem ↔
        P off ∧ (strncasecmp value off).Within P mem ∧
          ((strncasecmp value off).value mem = false →
            (readFindLoop value fuel (off + 1) (len - 1)).Within P mem) := by
  obtain ⟨len, rfl⟩ : ∃ n, len = n + 1 := ⟨len - 1, by omega⟩
  obtain ⟨hvalue, hwithin⟩ := skip_stop mem _ off len (.inl h)
  obtain ⟨hpass, hpass'⟩ := find_pass value mem fuel off (len + 1) hlen hvalue
  refine ⟨hpass, fun P => ?_⟩
  rw [hpass', hwithin]

/-- Behind the last byte but two the search compares once more, and ends. -/
theorem find_last (fuel off : Nat) (h : mem off ≠ value.getD 0 0) :
    (readFindLoop value (fuel + 1) off 3).value mem =
        (if (strncasecmp value (off + 1)).value mem then some (off + 1) else none) ∧
      ∀ P, (readFindLoop value (fuel + 1) off 3).Within P mem ↔
        P off ∧ P (off + 1) ∧ (strncasecmp value (off + 1)).Within P mem := by
  obtain ⟨hvalue, hwithin⟩ := skip_step 2 h (Nat.le_refl 2)
  obtain ⟨hvalue', hwithin'⟩ := skip_stop mem (value.getD 0 0) (off + 1) 1 (.inr (by decide))
  obtain ⟨hpass, hpass'⟩ := find_pass value mem fuel off 3 (by decide) (hvalue.trans hvalue')
  have hnone : readFindLoop value fuel (off + 1 + 1) (2 - 1) = pure none := by
    cases fuel <;> rfl
  simp only [hnone] at hpass hpass'
  refine ⟨hpass, fun P => ?_⟩
  rw [hpass', hwithin, hwithin', and_assoc]
  simp

/-! ## The whole search -/

/-- The positions where the search compares: at the first byte of the value with two more behind it,
and at the last but one behind any other byte. -/
def ComparedAt (data value : Bytes) (i : Nat) : Prop :=
  i + 3 ≤ data.length ∧ data.getD i 0 = value.getD 0 0 ∨
    i + 2 = data.length ∧ 0 < i ∧ data.getD (i - 1) 0 ≠ value.getD 0 0

/-- The comparison at `i` finds no difference inside the segment. -/
def StopsAt (data value : Bytes) (i : Nat) : Prop := ComparedAt data value i ∧ AgreesAt data value i

/-- What a comparison that finds no difference leads to. -/
def Outcome (data value : Bytes) (mem : Memory) (i : Nat) (r : Read (Option Nat)) : Prop :=
  (i + value.length ≤ data.length → r.value mem = some i ∧ r.Within (· < data.length) mem) ∧
    (data.length < i + value.length → ¬ r.Within (· < data.length) mem)

/-- What a search from `off` on reads and finds. -/
structure Searched (data value : Bytes) (mem : Memory) (off : Nat)
    (r : Read (Option Nat)) : Prop where
  stops : ∀ i, off ≤ i → StopsAt data value i → (∀ j, off ≤ j → j < i → ¬ StopsAt data value j) →
    Outcome data value mem i r
  ends : (∀ i, off ≤ i → ¬ StopsAt data value i) →
    r.value mem = none ∧ r.Within (· < data.length) mem

theorem StopsAt.lt {i : Nat} (h : StopsAt data value i) : i + 2 ≤ data.length := by
  rcases h.1 with ⟨hle, -⟩ | ⟨hle, -, -⟩ <;> omega

/-- A search that only passes over `off`. -/
theorem Searched.next {off : Nat} {r rest : Read (Option Nat)}
    (h : Searched data value mem (off + 1) rest) (hstop : ¬ StopsAt data value off)
    (hvalue : r.value mem = rest.value mem)
    (hwithin : r.Within (· < data.length) mem ↔ rest.Within (· < data.length) mem) :
    Searched data value mem off r := by
  constructor
  · intro i hi hstops hfirst
    have hlt : off + 1 ≤ i := by
      have hne : i ≠ off := fun heq => hstop (heq ▸ hstops)
      omega
    have hrest := h.stops i hlt hstops fun j hj => hfirst j (by omega)
    rwa [Outcome, hvalue, hwithin]
  · intro hnone
    rw [hvalue, hwithin]
    exact h.ends fun i hi => hnone i (by omega)

/-- Where nothing stops the rest of the search, it ends without a result. -/
theorem Searched.finish {off : Nat} {r : Read (Option Nat)}
    (hnone : ∀ i, off ≤ i → ¬ StopsAt data value i) (hvalue : r.value mem = none)
    (hwithin : r.Within (· < data.length) mem) : Searched data value mem off r where
  stops := fun i hi hstops _ => absurd hstops (hnone i hi)
  ends := fun _ => ⟨hvalue, hwithin⟩

/-- Where the next comparison is at `k` and finds no difference, the search ends there. -/
theorem Searched.here {off k : Nat} {r : Read (Option Nat)} (hk : off ≤ k)
    (hstops : StopsAt data value k) (hfirst : ∀ j, off ≤ j → j < k → ¬ StopsAt data value j)
    (houtcome : Outcome data value mem k r) :
    Searched data value mem off r where
  stops := fun i hi hi' hfirst' => by
    have heq : i = k := by
      rcases Nat.lt_trichotomy i k with hlt | heq | hlt
      · exact absurd hi' (hfirst i hi hlt)
      · exact heq
      · exact absurd hstops (hfirst' k hk hlt)
    exact heq ▸ houtcome
  ends := fun hnone => absurd hstops (hnone k hk)

section

variable {off len : Nat}

/-- The comparison at `off` succeeds, or runs out of the segment. -/
theorem searched_of_agrees (hmem : HoldsSegment mem data) (fuel : Nat) (hlen : 3 ≤ len + 1)
    (hoff : off + (len + 1) = data.length) (hfirst : mem off = value.getD 0 0)
    (hagrees : AgreesAt data value off) :
    Searched data value mem off (readFindLoop value (fuel + 1) off (len + 1)) := by
  have hbyte := hmem off (by omega)
  obtain ⟨hvalue, hwithin⟩ := find_here fuel (len + 1) (by omega) hfirst
  obtain ⟨hin, hout⟩ := strncasecmp_agrees hmem hagrees
  apply Searched.here (Nat.le_refl off) ⟨.inl ⟨by omega, hbyte ▸ hfirst⟩, hagrees⟩
    fun j hj hlt => by omega
  constructor
  · intro hroom
    obtain ⟨htrue, hread⟩ := hin hroom
    rw [htrue, if_pos rfl] at hvalue
    rw [hwithin, htrue]
    exact ⟨hvalue, by omega, hread, fun h => by cases h⟩
  · intro hlong hall
    exact hout (by omega) hlong ((hwithin _).mp hall).2.1

/-- The comparison at `off` fails, and the search goes on behind it. -/
theorem searched_of_differs (hmem : HoldsSegment mem data) {fuel : Nat} (hlen : 3 ≤ len + 1)
    (hoff : off + (len + 1) = data.length) (hfirst : mem off = value.getD 0 0)
    (hdiffers : ¬ AgreesAt data value off)
    (hrest : 3 ≤ len → Searched data value mem (off + 1) (readFindLoop value fuel (off + 1) len)) :
    Searched data value mem off (readFindLoop value (fuel + 1) off (len + 1)) := by
  have hbyte := hmem off (by omega)
  have hstop : ¬ StopsAt data value off := fun hstops => hdiffers hstops.2
  obtain ⟨hvalue, hwithin⟩ := find_here fuel (len + 1) (by omega) hfirst
  obtain ⟨hfalse, hread⟩ := strncasecmp_differs hmem hdiffers
  rw [hfalse, if_neg (by decide), Nat.add_sub_cancel] at hvalue
  have hreads : (readFindLoop value (fuel + 1) off (len + 1)).Within (· < data.length) mem ↔
      (readFindLoop value fuel (off + 1) len).Within (· < data.length) mem := by
    rw [hwithin, hfalse, Nat.add_sub_cancel]
    simp only [hread, true_and, true_implies]
    exact and_iff_right (by omega)
  by_cases hlen3 : 3 ≤ len
  · exact (hrest hlen3).next hstop hvalue hreads
  · have hnone : readFindLoop value fuel (off + 1) len = pure none := by
      obtain rfl : len = 2 := by omega
      cases fuel <;> rfl
    rw [hnone] at hvalue hreads
    refine .finish (fun i hi hstops => ?_) hvalue (hreads.mpr (within_pure _ _ _))
    rcases hstops.1 with ⟨hle, -⟩ | ⟨hle, -, hne⟩
    · exact hstop ((show i = off by omega) ▸ hstops)
    · have hprev : i - 1 = off := by omega
      rw [hprev] at hne
      exact hne (hbyte ▸ hfirst)

/-- Three bytes are left, and the first is not that of the value: the two behind it are compared. -/
theorem searched_of_last (hmem : HoldsSegment mem data) (fuel : Nat) (hoff : off + 3 = data.length)
    (hfirst : mem off ≠ value.getD 0 0) (hstop : ¬ StopsAt data value off) :
    Searched data value mem off (readFindLoop value (fuel + 1) off 3) := by
  have hbyte := hmem off (by omega)
  obtain ⟨hvalue, hwithin⟩ := find_last fuel off hfirst
  have honly (i : Nat) (hi : off ≤ i) (hstops : StopsAt data value i) : i = off + 1 := by
    have hlt := hstops.lt
    have hne : i ≠ off := fun heq => hstop (heq ▸ hstops)
    omega
  by_cases hagrees : AgreesAt data value (off + 1)
  · obtain ⟨hin, hout⟩ := strncasecmp_agrees hmem hagrees
    have hcompared : ComparedAt data value (off + 1) :=
      .inr ⟨by omega, Nat.succ_pos off, fun heq => hfirst (hbyte.trans heq)⟩
    apply Searched.here (Nat.le_succ off) ⟨hcompared, hagrees⟩
      (fun j hj hlt hstops => by have := honly j hj hstops; omega)
    constructor
    · intro hroom
      obtain ⟨htrue, hread⟩ := hin hroom
      rw [htrue, if_pos rfl] at hvalue
      exact ⟨hvalue, (hwithin _).mpr ⟨by omega, by omega, hread⟩⟩
    · intro hlong hall
      exact hout (by omega) hlong ((hwithin _).mp hall).2.2
  · obtain ⟨hfalse, hread⟩ := strncasecmp_differs hmem hagrees
    rw [hfalse, if_neg (by decide)] at hvalue
    refine .finish (fun i hi hstops => ?_) hvalue ((hwithin _).mpr ⟨by omega, by omega, hread⟩)
    exact hagrees (honly i hi hstops ▸ hstops.2)

end

/-- The induction is on what is left: a position is compared, passed over, or the last one. -/
theorem readFindLoop_searched (hmem : HoldsSegment mem data) {len : Nat} (hlen : 3 ≤ len)
    {off fuel : Nat} (hoff : off + len = data.length) (hfuel : len ≤ fuel) :
    Searched data value mem off (readFindLoop value fuel off len) := by
  induction len generalizing off fuel with
  | zero => omega
  | succ len ih =>
    obtain ⟨fuel, rfl⟩ : ∃ f, fuel = f + 1 := ⟨fuel - 1, by omega⟩
    have hbyte := hmem off (by omega)
    by_cases hfirst : mem off = value.getD 0 0
    · by_cases hagrees : AgreesAt data value off
      · exact searched_of_agrees hmem fuel hlen hoff hfirst hagrees
      · exact searched_of_differs hmem hlen hoff hfirst hagrees fun hlen3 =>
          ih hlen3 (by omega) (by omega)
    · have hstop : ¬ StopsAt data value off := by
        intro hstops
        rcases hstops.1 with ⟨-, heq⟩ | ⟨hle, -⟩
        · exact hfirst (hbyte.trans heq)
        · omega
      by_cases hlen3 : 3 ≤ len
      · obtain ⟨hvalue, hwithin⟩ := find_skip fuel (len + 1) (by omega) hfirst
        have hrest :
            Searched data value mem (off + 1) (readFindLoop value (fuel + 1) (off + 1) len) :=
          ih hlen3 (by omega) (by omega)
        refine hrest.next hstop hvalue ?_
        rw [hwithin]
        exact and_iff_right (by omega)
      · obtain rfl : len = 2 := by omega
        exact searched_of_last hmem fuel hoff hfirst hstop

theorem readFindData_searched (hmem : HoldsSegment mem data) :
    Searched data value mem 0 (readFindData data.length value) := by
  by_cases hlen : 3 ≤ data.length
  · exact readFindLoop_searched hmem hlen (Nat.zero_add _) (Nat.le_refl _)
  · have hnone : readFindData data.length value = pure none := by
      unfold readFindData
      cases hlength : data.length with
      | zero => rfl
      | succ n =>
        rw [readFindLoop, if_neg (by omega)]
    rw [hnone]
    refine .finish (fun i _ hstops => ?_) rfl (within_pure _ _ _)
    rcases hstops.1 with ⟨hle, -⟩ | ⟨hle, hpos, -⟩ <;> omega

/-- The search stops at a first position, or nowhere. -/
theorem stops_cases (data value : Bytes) :
    (∃ i, StopsAt data value i ∧ ∀ j < i, ¬ StopsAt data value j) ∨
    ∀ i, ¬ StopsAt data value i := by
  by_cases hstops : ∃ i, StopsAt data value i
  · classical
    exact .inl ⟨Nat.find hstops, Nat.find_spec hstops, fun j hj => Nat.find_min hstops hj⟩
  · push Not at hstops
    exact .inr hstops

/-- What stops a search for three bytes or more is an occurrence or a cut one. -/
theorem stopsAt_iff (hv : 3 ≤ value.length) (i : Nat) :
    StopsAt data value i ↔ OccursAt data value i ∨ CutAt data value i := by
  constructor
  · intro ⟨hcompared, hagrees⟩
    by_cases hroom : i + value.length ≤ data.length
    · rcases hcompared with ⟨-, heq⟩ | ⟨hle, -⟩
      · exact .inl ⟨hroom, heq, hagrees⟩
      · omega
    · exact .inr ⟨by omega, hagrees, hcompared⟩
  · rintro (⟨hroom, heq, hagrees⟩ | ⟨-, hagrees, hcompared⟩)
    · exact ⟨.inl ⟨by omega, heq⟩, hagrees⟩
    · exact ⟨hcompared, hagrees⟩

/-- A value occurs in the segment, or it does not and is not cut, or it is only cut. -/
theorem search_cases (data value : Bytes) :
    (∃ i, FirstAt data value i) ∨ Absent data value ∨
      ((∀ i, ¬ OccursAt data value i) ∧ ∃ i, CutAt data value i) := by
  by_cases hocc : ∃ i, OccursAt data value i
  · classical
    exact .inl ⟨Nat.find hocc, Nat.find_spec hocc, fun j hj => Nat.find_min hocc hj⟩
  · push Not at hocc
    by_cases hcut : ∃ i, CutAt data value i
    · exact .inr (.inr ⟨hocc, hcut⟩)
    · push Not at hcut
      exact .inr (.inl fun i => ⟨hocc i, hcut i⟩)

theorem find_first (hmem : HoldsSegment mem data) (hv : 3 ≤ value.length) {i : Nat}
    (h : FirstAt data value i) :
    (readFindData data.length value).value mem = some i ∧
      (readFindData data.length value).Within (· < data.length) mem := by
  have hfits := h.1.1
  refine ((readFindData_searched hmem).stops i (Nat.zero_le i)
    ((stopsAt_iff hv i).mpr (.inl h.1)) ?_).1 hfits
  intro j _ hj hstops
  rcases (stopsAt_iff hv j).mp hstops with hocc | hcut
  · exact h.2 j hj hocc
  · have hlong := hcut.1
    omega

theorem find_absent (hmem : HoldsSegment mem data) (hv : 3 ≤ value.length) (h : Absent data value) :
    (readFindData data.length value).value mem = none ∧
      (readFindData data.length value).Within (· < data.length) mem := by
  apply (readFindData_searched hmem).ends
  intro i _ hstops
  exact ((stopsAt_iff hv i).mp hstops).elim (h i).1 (h i).2

theorem find_cut (hmem : HoldsSegment mem data) (hv : 3 ≤ value.length)
    (hocc : ∀ i, ¬ OccursAt data value i) {i : Nat} (hcut : CutAt data value i) :
    ¬ (readFindData data.length value).Within (· < data.length) mem := by
  rcases stops_cases data value with ⟨k, hstops, hfirst⟩ | hnone
  · have hcutk := ((stopsAt_iff hv k).mp hstops).resolve_left (hocc k)
    exact ((readFindData_searched hmem).stops k (Nat.zero_le k) hstops fun j _ hj =>
      hfirst j hj).2 hcutk.1
  · exact absurd ((stopsAt_iff hv i).mpr (.inr hcut)) (hnone i)

end

end PdaNetClient.Http
