import PdaNetClient.HttpSearch

/-!
# `find_data` for any string

The search for a string of any length and any bytes. The inner loop compares a `uint8_t` with
the `char` at the front of the string, so on the ABIs with a signed `char` a front byte above
`0x7F` is equal to nothing. The last position of a buffer is never compared, the last but one
only behind a byte that differs from the front of the string.
-/
namespace PdaNetClient.Http

open Reading

set_option autoImplicit false

/-- `value[0]` as it is compared with a byte. -/
def firstChar (abi : Abi) (value : Bytes) : Int :=
  if abi.charSigned ∧ 128 ≤ (value.getD 0 0).toNat then ((value.getD 0 0).toNat : Int) -
    256 else (value.getD 0 0).toNat

def readSkipFor (c : Int) : Nat → Nat → Read (Nat × Nat)
  | off, 0 => pure (off, 0)
  | off, len + 1 => do
    let b ← look off
    if (b.toNat : Int) ≠ c ∧ len + 1 > 2 then readSkipFor c (off + 1) len else pure (off, len + 1)

def readFindLoopFor (abi : Abi) (value : Bytes) : Nat → Nat → Nat → Read (Option Nat)
  | 0, _, _ => pure none
  | fuel + 1, off, len =>
    if len > 2 then do
      let p ← readSkipFor (firstChar abi value) off len
      let found ← strncasecmp value p.1
      if found then pure (some p.1) else readFindLoopFor abi value fuel (p.1 + 1) (p.2 - 1)
    else pure none

/-- `find_data` -/
def readFindDataFor (abi : Abi) (dataLen : Nat) (value : Bytes) : Read (Option Nat) :=
  readFindLoopFor abi value dataLen 0 dataLen

/-! ## The loops end -/

/-- The variables of the outer loop. -/
structure Search where
  off : Nat
  len : Nat
  found : Bool
  deriving DecidableEq, Repr

/-- `!found && data_len > 2` -/
def Search.Going (s : Search) : Prop := s.found = false ∧ s.len > 2

def Search.result (s : Search) : Option Nat := if s.found then some s.off else none

/-- The body of the outer loop. -/
def searchPass (abi : Abi) (value : Bytes) (mem : Memory) (s : Search) : Search :=
  let p := (readSkipFor (firstChar abi value) s.off s.len).value mem
  if (strncasecmp value p.1).value mem then ⟨p.1, p.2, true⟩ else ⟨p.1 + 1, p.2 - 1, false⟩

section

variable (abi : Abi) (value : Bytes) (mem : Memory)

theorem readSkipFor_le (c : Int) (off len : Nat) : ((readSkipFor c off len).value mem).2 ≤ len := by
  induction len generalizing off with
  | zero => exact Nat.le_refl 0
  | succ len ih =>
    have hrest := ih (off + 1)
    rw [readSkipFor, value_bind, value_ite]
    split
    · omega
    · exact Nat.le_refl _

/-- The outer loop shortens the length, and ends after that many passes at most. -/
theorem readFindLoopFor_ends (fuel off len : Nat) (hfuel : len ≤ fuel) :
    ∃ k ≤ fuel, (∀ j < k, ((searchPass abi value mem)^[j] ⟨off, len, false⟩).Going) ∧
      ¬ ((searchPass abi value mem)^[k] ⟨off, len, false⟩).Going ∧
      (readFindLoopFor abi value fuel off len).value mem =
        ((searchPass abi value mem)^[k] ⟨off, len, false⟩).result := by
  induction fuel generalizing off len with
  | zero => exact ⟨0, Nat.le_refl 0, by simp, by simp [Search.Going]; omega, rfl⟩
  | succ fuel ih =>
    by_cases hlen : len > 2
    · have hle := readSkipFor_le mem (firstChar abi value) off len
      have hpass : searchPass abi value mem ⟨off, len, false⟩ =
        searchPass abi value mem ⟨off, len, false⟩ := rfl
      rw [readFindLoopFor, if_pos hlen, value_bind, value_bind, value_ite]
      conv at hpass => rhs; unfold searchPass
      simp only at hpass
      generalize (readSkipFor (firstChar abi value) off len).value mem = p at hle hpass
      cases hfound : (strncasecmp value p.1).value mem with
      | true =>
        rw [hfound, if_pos rfl] at hpass
        refine ⟨1, by omega, ?_, ?_, ?_⟩
        · intro j hj
          obtain rfl : j = 0 := by omega
          exact ⟨rfl, hlen⟩
        · rw [Function.iterate_one, hpass]
          exact fun hgoing => by cases hgoing.1
        · rw [Function.iterate_one, hpass]
          rfl
      | false =>
        rw [hfound, if_neg (by decide)] at hpass
        obtain ⟨k, hk, hgoing, hend, hresult⟩ := ih (p.1 + 1) (p.2 - 1) (by omega)
        refine ⟨k + 1, by omega, ?_, ?_, ?_⟩
        · intro j hj
          cases j with
          | zero => exact ⟨rfl, hlen⟩
          | succ j =>
            rw [Function.iterate_succ_apply, hpass]
            exact hgoing j (by omega)
        · rwa [Function.iterate_succ_apply, hpass]
        · rw [Function.iterate_succ_apply, hpass]
          exact hresult
    · refine ⟨0, by omega, by simp, fun hgoing => hlen hgoing.2, ?_⟩
      rw [readFindLoopFor, if_neg hlen]
      rfl

end

/-! ## The front byte -/

/-- A front byte that a `char` holds unchanged. -/
def Plain (abi : Abi) (value : Bytes) : Prop :=
  abi.charSigned = false ∨ (value.getD 0 0).toNat < 128

instance (abi : Abi) (value : Bytes) : Decidable (Plain abi value) :=
  inferInstanceAs (Decidable (_ ∨ _))

theorem firstChar_plain {abi : Abi} {value : Bytes} (h : Plain abi value) :
    firstChar abi value = (value.getD 0 0).toNat := by
  unfold firstChar
  apply if_neg
  intro ⟨hsigned, hhigh⟩
  rcases h with hunsigned | hlow
  · rw [hunsigned] at hsigned
    cases hsigned
  · omega

theorem firstChar_high {abi : Abi} {value : Bytes} (h : ¬ Plain abi value) :
    firstChar abi value < 0 := by
  have hlt := (value.getD 0 0).toNat_lt
  simp only [Plain, not_or, Bool.not_eq_false, Nat.not_lt] at h
  rw [firstChar, if_pos h]
  omega

theorem byte_eq_iff (b c : UInt8) : (b.toNat : Int) ≠ c.toNat ↔ b ≠ c := by
  rw [Ne, Int.natCast_inj, UInt8.toNat_inj]

theorem readSkipFor_byte (c : UInt8) (off len : Nat) :
    readSkipFor c.toNat off len = readSkip c off len := by
  induction len generalizing off with
  | zero => rfl
  | succ len ih =>
    simp only [readSkipFor, readSkip, byte_eq_iff, ih]

/-- The searches of `patch_http_url` are of this kind. -/
theorem readFindDataFor_plain {abi : Abi} {value : Bytes} (h : Plain abi value) (dataLen : Nat) :
    readFindDataFor abi dataLen value = readFindData dataLen value := by
  have hloop (fuel off len : Nat) : readFindLoopFor abi value fuel off len =
      readFindLoop value fuel off len := by
    induction fuel generalizing off len with
    | zero => rfl
    | succ fuel ih =>
      simp only [readFindLoopFor, readFindLoop, firstChar_plain h, readSkipFor_byte, ih]
  exact hloop dataLen 0 dataLen

/-- No byte is equal to a negative `char`: the inner loop runs until two bytes are left. -/
theorem readSkipFor_high {c : Int} (hc : c < 0) (mem : Memory) (P : Nat → Prop) (off len : Nat) :
    (readSkipFor c off (len + 2)).value mem = (off + len, 2) ∧
      ((∀ i, off ≤ i → i ≤ off + len → P i) → (readSkipFor c off (len + 2)).Within P mem) := by
  induction len generalizing off with
  | zero =>
    have hstop : ¬ (((mem off).toNat : Int) ≠ c ∧ 0 + 1 + 1 > 2) := by omega
    rw [readSkipFor, value_bind, value_look, if_neg hstop]
    refine ⟨rfl, fun hall => ?_⟩
    rw [within_bind, within_look, value_look, if_neg hstop]
    exact ⟨hall off (Nat.le_refl _) (Nat.le_refl _), within_pure _ _ _⟩
  | succ len ih =>
    have hskip : ((mem off).toNat : Int) ≠ c ∧ len + 1 + 1 + 1 > 2 := by omega
    obtain ⟨hvalue, hwithin⟩ := ih (off + 1)
    rw [readSkipFor, value_bind, value_look, if_pos hskip, hvalue]
    refine ⟨by rw [Nat.add_right_comm, Nat.add_assoc], fun hall => ?_⟩
    rw [within_bind, within_look, value_look, if_pos hskip]
    exact ⟨hall off (Nat.le_refl _) (by omega),
      hwithin fun i hi hi' => hall i (by omega) (by omega)⟩

/-! ## What is found -/

/-- The positions that are compared with the string. -/
def ComparedFor (abi : Abi) (data value : Bytes) (i : Nat) : Prop :=
  i + 3 ≤ data.length ∧ ((data.getD i 0).toNat : Int) = firstChar abi value ∨
    i + 2 = data.length ∧ 0 < i ∧ ((data.getD (i - 1) 0).toNat : Int) ≠ firstChar abi value

/-- The string stands at `i` in either case. -/
def MatchAt (data value : Bytes) (i : Nat) : Prop :=
  i + value.length ≤ data.length ∧ AgreesAt data value i

def FirstMatch (data value : Bytes) (i : Nat) : Prop :=
  MatchAt data value i ∧ ∀ j < i, ¬ MatchAt data value j

theorem comparedFor_plain {abi : Abi} {data value : Bytes} (h : Plain abi value) (i : Nat) :
    ComparedFor abi data value i ↔ ComparedAt data value i := by
  unfold ComparedFor ComparedAt
  rw [firstChar_plain h, byte_eq_iff, Int.natCast_inj, UInt8.toNat_inj]

theorem comparedFor_high {abi : Abi} {data value : Bytes} (h : ¬ Plain abi value) (i : Nat) :
    ComparedFor abi data value i ↔ i + 2 = data.length ∧ 0 < i := by
  have hneg := firstChar_high h
  unfold ComparedFor
  omega

section

variable {abi : Abi} {data value : Bytes} {mem : Memory}

/-- The whole search, decided by the first compared position without a difference. -/
structure Scanned (abi : Abi) (data value : Bytes) (mem : Memory) : Prop where
  stops : ∀ i, ComparedFor abi data value i → AgreesAt data value i →
    (∀ j < i, ¬ (ComparedFor abi data value j ∧ AgreesAt data value j)) →
    Outcome data value mem i (readFindDataFor abi data.length value)
  ends : (∀ i, ¬ (ComparedFor abi data value i ∧ AgreesAt data value i)) →
    (readFindDataFor abi data.length value).value mem = none ∧
      (readFindDataFor abi data.length value).Within (· < data.length) mem

theorem scanned_plain (hmem : HoldsSegment mem data) (h : Plain abi value) :
    Scanned abi data value mem := by
  have hsearched : Searched data value mem 0 (readFindData data.length value) :=
    readFindData_searched hmem
  constructor
  · intro i hcompared hagrees hfirst
    rw [readFindDataFor_plain h]
    apply hsearched.stops i (Nat.zero_le i) ⟨(comparedFor_plain h i).mp hcompared, hagrees⟩
    intro j _ hj hstops
    exact hfirst j hj ⟨(comparedFor_plain h j).mpr hstops.1, hstops.2⟩
  · intro hnone
    rw [readFindDataFor_plain h]
    apply hsearched.ends
    intro i _ hstops
    exact hnone i ⟨(comparedFor_plain h i).mpr hstops.1, hstops.2⟩

/-- With such a front the only comparison is two bytes before the end. -/
theorem readFindDataFor_high (h : ¬ Plain abi value) (mem : Memory) (len : Nat) (hlen : 0 < len) :
    (readFindDataFor abi (len + 2) value).value mem =
      (if (strncasecmp value len).value mem then some len else none) ∧
      ((readFindDataFor abi (len + 2) value).Within (· < len + 2) mem ↔
        (strncasecmp value len).Within (· < len + 2) mem) := by
  obtain ⟨hskip, hall⟩ := readSkipFor_high (firstChar_high h) mem (· < len + 2) 0 len
  have hread := hall fun i _ hi => by omega
  rw [Nat.zero_add] at hskip
  have hnone : readFindLoopFor abi value (len + 1) (len + 1) 1 = pure none := by
    rw [readFindLoopFor, if_neg (by decide)]
  unfold readFindDataFor
  rw [readFindLoopFor, if_pos (by omega), value_bind, hskip, value_bind, value_ite]
  simp only [show 2 - 1 = 1 from rfl, hnone]
  refine ⟨rfl, ?_⟩
  rw [within_bind, hskip, within_bind, within_ite]
  cases (strncasecmp value len).value mem <;> simp [hread, hnone]

theorem scanned_high (hmem : HoldsSegment mem data) (h : ¬ Plain abi value) :
    Scanned abi data value mem := by
  by_cases hlen : 3 ≤ data.length
  · obtain ⟨len, hdata⟩ : ∃ l, data.length = l + 2 := ⟨data.length - 2, by omega⟩
    obtain ⟨hvalue, hwithin⟩ := readFindDataFor_high h mem len (by omega)
    rw [← hdata] at hvalue hwithin
    have honly (i : Nat) : ComparedFor abi data value i ↔ i = len := by
      rw [comparedFor_high h]
      omega
    constructor
    · intro i hcompared hagrees _
      obtain rfl := (honly i).mp hcompared
      obtain ⟨hin, hout⟩ := strncasecmp_agrees hmem hagrees
      constructor
      · intro hroom
        obtain ⟨htrue, hread⟩ := hin hroom
        rw [htrue, if_pos rfl] at hvalue
        exact ⟨hvalue, hwithin.mpr hread⟩
      · intro hlong hall
        exact hout (by omega) hlong (hwithin.mp hall)
    · intro hnone
      obtain ⟨hfalse, hread⟩ :=
        strncasecmp_differs hmem fun hagrees => hnone len ⟨(honly len).mpr rfl, hagrees⟩
      rw [hfalse, if_neg (by decide)] at hvalue
      exact ⟨hvalue, hwithin.mpr hread⟩
  · have hnone : readFindDataFor abi data.length value = pure none := by
      unfold readFindDataFor
      cases hlength : data.length with
      | zero => rfl
      | succ n =>
        rw [readFindLoopFor, if_neg (by omega)]
    have hshort (i : Nat) : ¬ ComparedFor abi data value i := by
      rw [comparedFor_high h]
      omega
    constructor
    · intro i hcompared
      exact absurd hcompared (hshort i)
    · intro _
      rw [hnone]
      exact ⟨rfl, within_pure _ _ _⟩

theorem scanned (abi : Abi) (value : Bytes) (hmem : HoldsSegment mem data) :
    Scanned abi data value mem := by
  by_cases h : Plain abi value
  · exact scanned_plain hmem h
  · exact scanned_high hmem h

/-- What is asked of `find_data`. -/
structure Finds (abi : Abi) (data value : Bytes) (mem : Memory) : Prop where
  ends :
    ∃ k ≤ data.length, (∀ j < k, ((searchPass abi value mem)^[j] ⟨0, data.length, false⟩).Going) ∧
    ¬ ((searchPass abi value mem)^[k] ⟨0, data.length, false⟩).Going ∧
    (readFindDataFor abi data.length value).value mem =
      ((searchPass abi value mem)^[k] ⟨0, data.length, false⟩).result
  reads : (readFindDataFor abi data.length value).Within (· < data.length) mem
  first : ∀ i, FirstMatch data value i → (readFindDataFor abi data.length value).value mem = some i
  absent : (∀ i, ¬ MatchAt data value i) → (readFindDataFor abi data.length value).value mem = none

/-- The first match is compared; without one, no compared position agrees up to the end of the
buffer. -/
def Findable (abi : Abi) (data value : Bytes) : Prop :=
  (∀ i, FirstMatch data value i → ComparedFor abi data value i) ∧
    ((∀ i, ¬ MatchAt data value i) → ∀ i, ¬ (ComparedFor abi data value i ∧ AgreesAt data value i))

theorem match_cases (data value : Bytes) :
    (∃ i, FirstMatch data value i) ∨ ∀ i, ¬ MatchAt data value i := by
  by_cases hmatch : ∃ i, MatchAt data value i
  · classical
    exact .inl ⟨Nat.find hmatch, Nat.find_spec hmatch, fun j hj => Nat.find_min hmatch hj⟩
  · push Not at hmatch
    exact .inr hmatch

/-- A compared position before a match that agrees would be a match. -/
theorem FirstMatch.unstopped {i : Nat} (h : FirstMatch data value i) :
    ∀ j < i, ¬ (ComparedFor abi data value j ∧ AgreesAt data value j) := by
  intro j hj hstops
  have hfits := h.1.1
  exact h.2 j hj ⟨by omega, hstops.2⟩

/-- The first position that ends the search. -/
theorem Scanned.first_stop (h : Scanned abi data value mem) {i : Nat}
    (hstops : ComparedFor abi data value i ∧ AgreesAt data value i) :
    ∃ k, ComparedFor abi data value k ∧ AgreesAt data value k ∧
      Outcome data value mem k (readFindDataFor abi data.length value) := by
  classical
  have hex : ∃ k, ComparedFor abi data value k ∧ AgreesAt data value k := ⟨i, hstops⟩
  have hspec := Nat.find_spec hex
  exact ⟨Nat.find hex, hspec.1, hspec.2, h.stops _ hspec.1 hspec.2 fun j hj => Nat.find_min hex hj⟩

theorem finds_of_findable (hmem : HoldsSegment mem data) (h : Findable abi data value) :
    Finds abi data value mem := by
  have hscan := scanned abi value hmem
  have hends := readFindLoopFor_ends abi value mem data.length 0 data.length (Nat.le_refl _)
  rcases match_cases data value with ⟨i, hfirst⟩ | hnone
  · have hstop := hscan.stops i (h.1 i hfirst) hfirst.1.2 hfirst.unstopped
    obtain ⟨hvalue, hread⟩ := hstop.1 hfirst.1.1
    refine ⟨hends, hread, fun j hj => ?_, fun hnone => absurd hfirst.1 (hnone i)⟩
    have heq : j = i := by
      rcases Nat.lt_trichotomy j i with hlt | heq | hlt
      · exact absurd hj.1 (hfirst.2 j hlt)
      · exact heq
      · exact absurd hfirst.1 (hj.2 i hlt)
    rw [heq, hvalue]
  · obtain ⟨hvalue, hread⟩ := hscan.ends (h.2 hnone)
    exact ⟨hends, hread, fun i hi => absurd hi.1 (hnone i), fun _ => hvalue⟩

theorem findable_of_finds (hmem : HoldsSegment mem data) (h : Finds abi data value mem) :
    Findable abi data value := by
  have hscan := scanned abi value hmem
  constructor
  · intro i hfirst
    have hvalue := h.first i hfirst
    by_cases hany : ∃ j, ComparedFor abi data value j ∧ AgreesAt data value j
    · obtain ⟨j, hj⟩ := hany
      obtain ⟨k, hcompared, -, houtcome⟩ := hscan.first_stop hj
      by_cases hroom : k + value.length ≤ data.length
      · have hk := (houtcome.1 hroom).1
        rw [hvalue, Option.some_inj] at hk
        exact hk ▸ hcompared
      · exact absurd h.reads (houtcome.2 (Nat.lt_of_not_le hroom))
    · have hnone := (hscan.ends fun j hj => hany ⟨j, hj⟩).1
      rw [hvalue] at hnone
      cases hnone
  · intro hnone i hstops
    obtain ⟨k, -, hagrees, houtcome⟩ := hscan.first_stop hstops
    have hlong : data.length < k + value.length := by
      apply Nat.lt_of_not_le
      intro hroom
      exact hnone k ⟨hroom, hagrees⟩
    exact houtcome.2 hlong h.reads

/-- `find_data` finds the first match, inside the buffer, if and only if the match it should find is
one of the positions it compares, and otherwise no beginning of the string that it compares ends the
buffer. -/
theorem findData_finds (abi : Abi) (data value : Bytes) (after : Memory) :
    Finds abi data value (memoryOf data after) ↔ Findable abi data value :=
  ⟨findable_of_finds (holds_memoryOf data after), finds_of_findable (holds_memoryOf data after)⟩

/-- A host field in lower case is not found, and a method at the end of the buffer is followed out
of it. -/
theorem findData_misses :
    FirstMatch (ascii "\nhost: a") (ascii "Host: ") 1 ∧
      ¬ Finds .arm64V8a (ascii "\nhost: a") (ascii "Host: ")
        (memoryOf (ascii "\nhost: a") fun _ => 0) ∧
      ¬ (readFindDataFor .arm64V8a 3 (ascii "GET ")).Within (· < 3)
        (memoryOf (ascii "GET") fun _ => 0) := by
  have hfirst : FirstMatch (ascii "\nhost: a") (ascii "Host: ") 1 := by
    unfold FirstMatch MatchAt AgreesAt
    decide +kernel
  have hvalue : (readFindDataFor .arm64V8a 8 (ascii "Host: ")).value
      (memoryOf (ascii "\nhost: a") fun _ => 0) = none := by
    decide +kernel
  refine ⟨hfirst, fun hfinds => ?_, ?_⟩
  · have hfound := hfinds.first 1 hfirst
    rw [show (ascii "\nhost: a").length = 8 by decide +kernel, hvalue] at hfound
    cases hfound
  · unfold Reader.Within
    decide +kernel

end

end PdaNetClient.Http
