import PdaNetClient.HttpSearch

/-!
# The requests that `patch_http_url` rewrites

What a proxy is to be sent, read off the lines of the request; and what the function does:
it takes the first `Host: ` and, of its words in their order, the first that stands anywhere
in the segment, headers and body included.
-/
namespace PdaNetClient.Http

open Reading

set_option autoImplicit false

/-! ## The function with its reads -/

/-- The copy of the host value; behind 511 bytes one more is looked at. -/
def readHost : Nat → Nat → Read Bytes
  | 0, off => do
    let _ ← look off
    pure []
  | room + 1, off => do
    let b ← look off
    if b ≠ 13 then do
      let rest ← readHost room (off + 1)
      pure (b :: rest)
    else pure []

def readWord (dataLen : Nat) : List Bytes → Read (Option Nat)
  | [] => pure none
  | w :: ws => do
    let pos ← readFindData dataLen w
    match pos with
    | some pos => pure (some (pos + w.length))
    | none => readWord dataLen ws

/-- Comparisons of single bytes, joined by `&&`. -/
def readEquals : Bytes → Nat → Read Bool
  | [], _ => pure true
  | c :: text, off => do
    let b ← look off
    if b = c then readEquals text (off + 1) else pure false

/-- `patch_http_url` -/
def readPatch (dataLen : Nat) : Read Patch := do
  let host ← readFindData dataLen (ascii "Host: ")
  match host with
  | none => pure .unchanged
  | some host => do
    let hostname ← readHost 511 (host + 6)
    let pos1 ← readWord dataLen words
    match pos1 with
    | none => pure .unchanged
    | some pos1 => do
      let patched ← readEquals (ascii "http:") pos1
      if patched then pure .unchanged
      else do
        let _ ← lookMany 0 pos1
        if dataLen < pos1 then pure .overrun
        else do
          let _ ← lookMany pos1 (dataLen - pos1)
          pure (.insert pos1 (ascii "http://" ++ hostname))

section

variable (mem : Memory)

theorem readHost_value (room off : Nat) :
    (readHost room off).value mem = copyHost mem room off := by
  induction room generalizing off with
  | zero => rfl
  | succ room ih =>
    rw [readHost, copyHost, value_bind, value_look, value_ite, value_bind, ih]
    rfl

theorem readWord_value (dataLen : Nat) (ws : List Bytes) :
    (readWord dataLen ws).value mem = findWord mem dataLen ws := by
  induction ws with
  | nil => rfl
  | cons w ws ih =>
    rw [readWord, findWord, value_bind, readFindData_value]
    cases findData mem dataLen w with
    | none => exact ih
    | some pos => rfl

theorem readEquals_http (off : Nat) : (readEquals (ascii "http:") off).value mem =
    decide (mem off = 104 ∧ mem (off + 1) = 116 ∧ mem (off + 2) = 116 ∧ mem (off + 3) = 112 ∧
      mem (off + 4) = 58) := by
  have hascii : ascii "http:" = [104, 116, 116, 112, 58] := by decide +kernel
  rw [hascii]
  by_cases h0 : mem off = 104 <;> by_cases h1 : mem (off + 1) = 116 <;>
    by_cases h2 : mem (off + 2) = 116 <;>
    by_cases h3 : mem (off + 3) = 112 <;> by_cases h4 : mem (off + 4) = 58 <;>
    simp [readEquals, h0, h1, h2, h3, h4]

/-- The function with its reads computes the one without. -/
theorem readPatch_value (dataLen : Nat) :
    (readPatch dataLen).value mem = patchHttpUrl mem dataLen := by
  rw [readPatch, patchHttpUrl, value_bind, readFindData_value]
  cases findData mem dataLen (ascii "Host: ") with
  | none => rfl
  | some host =>
    simp only [value_bind, readHost_value, readWord_value]
    cases findWord mem dataLen words with
    | none => rfl
    | some pos1 =>
      simp only [value_bind, readEquals_http]
      split
      · rename_i h
        rw [if_pos (of_decide_eq_true h)]
        rfl
      · rename_i h
        rw [if_neg fun hall => h (decide_eq_true hall), value_bind, value_ite]
        rfl

end

/-! ## What a request should become -/

/-- The value of the field whose line starts here: behind the colon and blanks, up to CR. -/
def fieldValue (line : Bytes) : Option Bytes :=
  let value := (line.drop 5).dropWhile fun c => c = 32 ∨ c = 9
  if 13 ∈ value then some (value.takeWhile (· ≠ 13)) else none

def isHost (line : Bytes) : Bool := (line.take 5).map toLower = ascii "host:"

/-- The value of the first Host field of the header block, from the start of a header line (`true`)
or from inside a line. -/
def hostValue : Bool → Bytes → Option Bytes
  | _, [] => none
  | false, 13 :: 10 :: rest => hostValue true rest
  | false, _ :: rest => hostValue false rest
  | true, c :: rest =>
    if c = 13 ∧ rest.head? = some 10 then none
    else if isHost (c :: rest) then fieldValue (c :: rest)
    else hostValue false rest

/-- Where a request is to be changed, and its host: it starts with a method and a space, its target
is not absolute yet, and it has a host of less than 511 bytes. -/
def request (data : Bytes) : Option (Nat × Bytes) :=
  match words.find? (·.isPrefixOf data) with
  | none => none
  | some w =>
    if (ascii "http:").isPrefixOf (data.drop w.length) then none
    else match hostValue false data with
      | none => none
      | some host => if host.length < 511 then some (w.length, host) else none

def expected (data : Bytes) : Patch :=
  match request data with
  | none => .unchanged
  | some (pos, host) => .insert pos (ascii "http://" ++ host)

/-- Only the segment is read, and it becomes what it should. -/
structure Rewritten (data : Bytes) (after : Memory) : Prop where
  reads : (readPatch data.length).Within (· < data.length) (memoryOf data after)
  result : (readPatch data.length).value (memoryOf data after) = expected data
  text : ∀ pos host, request data = some (pos, host) →
    let sent := ((readPatch data.length).value (memoryOf data after)).apply data
    sent = data.take pos ++ (ascii "http://" ++ host) ++ data.drop pos ∧
      sent.length = data.length + 7 + host.length

/-- The copy of the value ends inside the segment. -/
def ValueInside (data : Bytes) (i : Nat) : Prop :=
  13 ∈ (data.drop i).take 512 ∨ i + 512 ≤ data.length

/-- Of the words in their order the first that occurs, and nothing of those before it. -/
def FirstWord (data : Bytes) (ws : List Bytes) (pos : Nat) : Prop :=
  ∃ before w behind i, ws = before ++ w :: behind ∧ (∀ v ∈ before, Absent data v) ∧
    FirstAt data w i ∧
    pos = i + w.length

/-- A request is served right if its first `Host: ` has the value of its field, and the first of the
words that occurs ends where its method does. -/
structure Served (data : Bytes) (pos : Nat) (host : Bytes) : Prop where
  host : ∃ i, FirstAt data (ascii "Host: ") i ∧ host ++ [13] <+: data.drop (i + 6)
  word : FirstWord data words pos

/-- Anything else is left alone if there is no `Host: `; or there is one, and either no word, or the
first word that occurs has an absolute target. -/
inductive LeftAlone (data : Bytes) : Prop where
  | hostless : Absent data (ascii "Host: ") → LeftAlone data
  | wordless (i : Nat) : FirstAt data (ascii "Host: ") i → ValueInside data (i + 6) →
      (∀ w ∈ words, Absent data w) →
      LeftAlone data
  | absolute (i pos : Nat) : FirstAt data (ascii "Host: ") i → ValueInside data (i + 6) →
      FirstWord data words pos →
      ascii "http:" <+: data.drop pos → LeftAlone data

def Unambiguous (data : Bytes) : Prop :=
  match request data with
  | some (pos, host) => Served data pos host
  | none => LeftAlone data

/-! ## Requests -/

theorem hostValue_props {start : Bool} {data host : Bytes} (h : hostValue start data = some host) :
    13 ∉ host ∧ 13 ∈ data := by
  induction start, data using hostValue.induct with
  | case1 start => cases start <;> cases h
  | case2 rest ih =>
    rw [hostValue] at h
    exact ⟨(ih h).1, by simp⟩
  | case3 c rest hne ih =>
    rw [hostValue.eq_3 _ _ hne] at h
    exact ⟨(ih h).1, List.mem_cons_of_mem _ (ih h).2⟩
  | case4 c rest hblank =>
    rw [hostValue, if_pos hblank] at h
    cases h
  | case5 c rest hblank hhost =>
    rw [hostValue, if_neg hblank, if_pos hhost, fieldValue] at h
    split at h
    · rename_i hmem
      obtain rfl := Option.some.inj h
      constructor
      · intro hin
        have := List.mem_takeWhile_imp hin
        simp at this
      · exact List.mem_of_mem_drop ((List.dropWhile_suffix _).subset hmem)
    · cases h
  | case6 c rest hblank hhost ih =>
    rw [hostValue, if_neg hblank, if_neg hhost] at h
    exact ⟨(ih h).1, List.mem_cons_of_mem _ (ih h).2⟩

theorem words_props : ∀ w ∈ words, 4 ≤ w.length ∧ 13 ∉ w := by decide +kernel

/-- What is known of a request that is to be changed. -/
theorem request_props {data : Bytes} {pos : Nat} {host : Bytes}
    (h : request data = some (pos, host)) :
    host.length < 511 ∧ 13 ∉ host ∧ 13 ∈ data.drop pos ∧ ¬ ascii "http:" <+: data.drop pos := by
  unfold request at h
  split at h
  · cases h
  · rename_i w hfind
    have hw := words_props w (List.mem_of_find?_eq_some hfind)
    have hprefix : w <+: data := 
      List.isPrefixOf_iff_prefix.mp
        (List.find?_some (p := fun w : Bytes => w.isPrefixOf data) hfind)
    split at h
    · cases h
    · rename_i habsolute
      split at h
      · cases h
      · rename_i value hvalue
        split at h
        · rename_i hlen
          cases h
          obtain ⟨hclean, hmem⟩ := hostValue_props hvalue
          refine ⟨hlen, hclean, ?_, fun hp => habsolute (List.isPrefixOf_iff_prefix.mpr hp)⟩
          obtain ⟨rest, rfl⟩ := hprefix
          rw [List.drop_left]
          exact (List.mem_append.mp hmem).resolve_left hw.2
        · cases h

/-! ## The reads -/

section

variable {data : Bytes} {mem : Memory}

theorem drop_eq_cons (hmem : HoldsSegment mem data) {i : Nat} (hi : i < data.length) :
    data.drop i = mem i :: data.drop (i + 1) := by
  rw [hmem i hi, List.drop_eq_getElem_cons hi]
  simp [hi]

/-- A byte of a prefix lies in the segment. -/
theorem cons_prefix_drop (hmem : HoldsSegment mem data) {c : UInt8} {rest : Bytes} {i : Nat}
    (h : c :: rest <+: data.drop i) : i < data.length ∧ c = mem i ∧ rest <+: data.drop (i + 1) := by
  have hi : i < data.length := Nat.lt_of_not_le fun hle => by
    rw [List.drop_eq_nil_of_le hle] at h
    cases List.prefix_nil.mp h
  rw [drop_eq_cons hmem hi] at h
  exact ⟨hi, List.cons_prefix_cons.mp h⟩

theorem readHost_within (hmem : HoldsSegment mem data) (room i : Nat) :
    (readHost room i).Within (· < data.length) mem ↔
      13 ∈ (data.drop i).take (room + 1) ∨ i + (room + 1) ≤ data.length := by
  induction room generalizing i with
  | zero =>
    rw [readHost, within_bind, within_look, and_iff_left (within_pure _ _ _)]
    constructor
    · intro hi
      exact .inr (by omega)
    · intro h
      refine h.elim (fun h => Nat.lt_of_not_le fun hle => ?_) (fun h => by omega)
      rw [List.drop_eq_nil_of_le hle] at h
      cases h
  | succ room ih =>
    rw [readHost, within_bind, within_look, value_look, within_ite]
    by_cases hi : i < data.length
    · rw [drop_eq_cons hmem hi, List.take_succ_cons, List.mem_cons]
      by_cases hcr : mem i = 13
      · rw [if_neg fun hne => hne hcr]
        simp [hi, hcr]
      · rw [if_pos hcr, within_bind, ih, and_iff_left (within_pure _ _ _)]
        simp only [hi, true_and, Ne.symm hcr, false_or]
        rw [show i + 1 + (room + 1) = i + (room + 1 + 1) by omega]
    · rw [List.drop_eq_nil_of_le (by omega)]
      simp [hi]
      omega

/-- A value that ends inside the segment is copied whole. -/
theorem copyHost_prefix (hmem : HoldsSegment mem data) {host : Bytes} {i room : Nat}
    (h : host ++ [13] <+: data.drop i) (hclean : 13 ∉ host) (hroom : host.length ≤ room) :
    copyHost mem room i = host := by
  induction host generalizing i room with
  | nil =>
    obtain ⟨-, hcr, -⟩ := cons_prefix_drop hmem h
    have hcr : mem i = 13 := hcr.symm
    cases room with
    | zero => rfl
    | succ room => rw [copyHost, if_neg fun hne => hne hcr]
  | cons c host ih =>
    obtain ⟨room, rfl⟩ : ∃ r, room = r + 1 := ⟨room - 1, by simp at hroom; omega⟩
    obtain ⟨-, hc, hrest⟩ := cons_prefix_drop hmem h
    have hne : mem i ≠ 13 := fun hcr => hclean (by simp [hc, hcr])
    rw [copyHost, if_pos hne,
      ih hrest (fun hin => hclean (List.mem_cons_of_mem _ hin)) (by simpa using hroom), ← hc]

theorem prefix_copyHost (hmem : HoldsSegment mem data) {i room : Nat}
    (h : (readHost room i).Within (· < data.length) mem)
    (hlen : (copyHost mem room i).length < room) :
    copyHost mem room i ++ [13] <+: data.drop i := by
  induction room generalizing i with
  | zero => simp at hlen
  | succ room ih =>
    rw [readHost, within_bind, within_look, value_look, within_ite] at h
    rw [copyHost] at hlen ⊢
    rw [drop_eq_cons hmem h.1]
    by_cases hcr : mem i = 13
    · rw [if_neg fun hne => hne hcr, hcr]
      exact List.cons_prefix_cons.mpr ⟨rfl, List.nil_prefix⟩
    · rw [if_pos hcr] at hlen ⊢
      have hread := h.2
      rw [if_pos hcr, within_bind] at hread
      exact List.cons_prefix_cons.mpr ⟨rfl, ih hread.1 (by simpa using hlen)⟩

theorem cr_mem_take {host : Bytes} {i : Nat} (h : host ++ [13] <+: data.drop i)
    (hlen : host.length < 512) :
    ValueInside data i := by
  obtain ⟨rest, hrest⟩ := h
  obtain ⟨k, hk⟩ : ∃ k, 512 - host.length = k + 1 := ⟨512 - host.length - 1, by omega⟩
  refine .inl ?_
  rw [← hrest, List.append_assoc, List.take_append, hk]
  simp

/-- The opposite of a match that ends inside the segment. -/
theorem readEquals_prefix (hmem : HoldsSegment mem data) {text : Bytes} {i : Nat}
    (h : text <+: data.drop i) :
    (readEquals text i).value mem = true ∧ (readEquals text i).Within (· < data.length) mem := by
  induction text generalizing i with
  | nil => exact ⟨rfl, within_pure _ _ _⟩
  | cons c text ih =>
    obtain ⟨hi, hc, hrest⟩ := cons_prefix_drop hmem h
    rw [readEquals, value_bind, within_bind, within_look, value_look, if_pos hc.symm]
    exact ⟨(ih hrest).1, hi, (ih hrest).2⟩

theorem prefix_readEquals (hmem : HoldsSegment mem data) {text : Bytes} {i : Nat}
    (h : (readEquals text i).Within (· < data.length) mem)
    (htrue : (readEquals text i).value mem = true) :
    text <+: data.drop i := by
  induction text generalizing i with
  | nil => exact List.nil_prefix
  | cons c text ih =>
    rw [readEquals, within_bind, within_look, value_look] at h
    rw [readEquals, value_bind, value_look] at htrue
    rw [drop_eq_cons hmem h.1]
    by_cases hc : mem i = c
    · rw [if_pos hc] at h htrue
      exact List.cons_prefix_cons.mpr ⟨hc.symm, ih h.2 htrue⟩
    · rw [if_neg hc] at htrue
      cases htrue

/-- A CR behind the place ends the comparison with a text that has none. -/
theorem readEquals_differs (hmem : HoldsSegment mem data) {text : Bytes} {i : Nat}
    (hcr : 13 ∈ data.drop i) (htext : 13 ∉ text) (h : ¬ text <+: data.drop i) :
    (readEquals text i).value mem = false ∧ (readEquals text i).Within (· < data.length) mem := by
  induction text generalizing i with
  | nil => exact absurd List.nil_prefix h
  | cons c text ih =>
    have hi : i < data.length := Nat.lt_of_not_le fun hle => by
      rw [List.drop_eq_nil_of_le hle] at hcr
      cases hcr
    rw [drop_eq_cons hmem hi] at hcr h
    rw [readEquals, value_bind, within_bind, within_look, value_look]
    by_cases hc : mem i = c
    · have hne : ¬ 13 = mem i := fun heq => htext (by simp [heq, hc])
      have hrest :=
        ih ((List.mem_cons.mp hcr).resolve_left hne) (fun hin => htext (List.mem_cons_of_mem _ hin))
        fun hp => h (List.cons_prefix_cons.mpr ⟨hc.symm, hp⟩)
      rw [if_pos hc]
      exact ⟨hrest.1, hi, hrest.2⟩
    · rw [if_neg hc]
      exact ⟨rfl, hi, within_pure _ _ _⟩

/-! ## The words -/

theorem find_within (hmem : HoldsSegment mem data) {value : Bytes} (hv : 3 ≤ value.length)
    (h : (readFindData data.length value).Within (· < data.length) mem) :
    (∃ i, FirstAt data value i) ∨ Absent data value := by
  rcases search_cases data value with hfirst | habsent | ⟨hocc, i, hcut⟩
  · exact .inl hfirst
  · exact .inr habsent
  · exact absurd h (find_cut hmem hv hocc hcut)

theorem readWord_absent (hmem : HoldsSegment mem data) {ws : List Bytes}
    (hws : ∀ w ∈ ws, 3 ≤ w.length) (h : ∀ w ∈ ws, Absent data w) :
    (readWord data.length ws).value mem = none ∧
    (readWord data.length ws).Within (· < data.length) mem := by
  induction ws with
  | nil => exact ⟨rfl, within_pure _ _ _⟩
  | cons w ws ih =>
    obtain ⟨hnone, hread⟩ := find_absent hmem (hws w (by simp)) (h w (by simp))
    have hrest := ih (fun v hv => hws v (by simp [hv])) fun v hv => h v (by simp [hv])
    rw [readWord, value_bind, within_bind, hnone]
    exact ⟨hrest.1, hread, hrest.2⟩

theorem FirstWord.cons {w : Bytes} {ws : List Bytes} {pos : Nat} (habsent : Absent data w)
    (h : FirstWord data ws pos) :
    FirstWord data (w :: ws) pos := by
  obtain ⟨before, v, behind, i, rfl, hbefore, hfirst, hpos⟩ := h
  refine ⟨w :: before, v, behind, i, rfl, fun u hu => ?_, hfirst, hpos⟩
  rcases List.mem_cons.mp hu with rfl | hu
  · exact habsent
  · exact hbefore u hu

theorem readWord_first (hmem : HoldsSegment mem data) {ws : List Bytes}
    (hws : ∀ w ∈ ws, 3 ≤ w.length) {pos : Nat} (h : FirstWord data ws pos) :
    (readWord data.length ws).value mem = some pos ∧
    (readWord data.length ws).Within (· < data.length) mem := by
  obtain ⟨before, w, behind, i, rfl, hbefore, hfirst, rfl⟩ := h
  induction before with
  | nil =>
    obtain ⟨hsome, hread⟩ := find_first hmem (hws w (by simp)) hfirst
    rw [List.nil_append, readWord, value_bind, within_bind, hsome]
    exact ⟨rfl, hread, within_pure _ _ _⟩
  | cons v before ih =>
    obtain ⟨hnone, hread⟩ := find_absent hmem (hws v (by simp)) (hbefore v (by simp))
    have hrest := ih (fun u hu => hws u (List.mem_cons_of_mem _ hu)) fun u hu =>
      hbefore u (List.mem_cons_of_mem _ hu)
    rw [List.cons_append, readWord, value_bind, within_bind, hnone]
    exact ⟨hrest.1, hread, hrest.2⟩

theorem readWord_within (hmem : HoldsSegment mem data) {ws : List Bytes}
    (hws : ∀ w ∈ ws, 3 ≤ w.length) (h : (readWord data.length ws).Within (· < data.length) mem) :
    (∃ pos, FirstWord data ws pos) ∨ ∀ w ∈ ws, Absent data w := by
  induction ws with
  | nil => exact .inr fun w hw => by cases hw
  | cons w ws ih =>
    have hlen := hws w (by simp)
    rw [readWord, within_bind] at h
    rcases find_within hmem hlen h.1 with ⟨i, hfirst⟩ | habsent
    · exact .inl ⟨i + w.length, [], w, ws, i, rfl, List.forall_mem_nil _, hfirst, rfl⟩
    · have hread := h.2
      rw [(find_absent hmem hlen habsent).1] at hread
      rcases ih (fun v hv => hws v (by simp [hv])) hread with ⟨pos, hpos⟩ | hall
      · exact .inl ⟨pos, hpos.cons habsent⟩
      · refine .inr fun v hv => ?_
        rcases List.mem_cons.mp hv with rfl | hv
        · exact habsent
        · exact hall v hv

/-! ## The ways through the function -/

theorem FirstWord.le_length {ws : List Bytes} {pos : Nat}
    (h : FirstWord data ws pos) : pos ≤ data.length := by
  obtain ⟨-, w, -, i, -, -, hfirst, rfl⟩ := h
  exact hfirst.1.1

section

variable (hmem : HoldsSegment mem data) {i pos : Nat}

include hmem

theorem patch_hostless (h : Absent data (ascii "Host: ")) :
    (readPatch data.length).value mem = .unchanged ∧
    (readPatch data.length).Within (· < data.length) mem := by
  obtain ⟨hnone, hread⟩ := find_absent hmem (by decide +kernel) h
  rw [readPatch, value_bind, within_bind, hnone]
  exact ⟨rfl, hread, within_pure _ _ _⟩

theorem patch_wordless (hhost : FirstAt data (ascii "Host: ") i) (hvalue : ValueInside data (i + 6))
    (h : ∀ w ∈ words, Absent data w) :
    (readPatch data.length).value mem = .unchanged ∧
    (readPatch data.length).Within (· < data.length) mem := by
  obtain ⟨hsome, hread⟩ := find_first hmem (by decide +kernel) hhost
  obtain ⟨hnone, hreads⟩ :=
    readWord_absent hmem (fun w hw => Nat.le_of_succ_le (words_props w hw).1) h
  have hcopy := (readHost_within hmem 511 (i + 6)).mpr hvalue
  rw [readPatch, value_bind, within_bind, hsome]
  simp only [value_bind, within_bind, hnone]
  exact ⟨rfl, hread, hcopy, hreads, within_pure _ _ _⟩

/-- Behind a first `Host: ` and a first word the function compares the target. -/
theorem patch_found (hhost : FirstAt data (ascii "Host: ") i) (hword : FirstWord data words pos) :
    (readPatch data.length).value mem =
        (if (readEquals (ascii "http:") pos).value mem then .unchanged
        else .insert pos (ascii "http://" ++ copyHost mem 511 (i + 6))) ∧
      ((readPatch data.length).Within (· < data.length) mem ↔
        ValueInside data (i + 6) ∧ (readEquals (ascii "http:") pos).Within
          (· < data.length) mem) := by
  obtain ⟨hsome, hread⟩ := find_first hmem (by decide +kernel) hhost
  obtain ⟨hpos, hreads⟩ :=
    readWord_first hmem (fun w hw => Nat.le_of_succ_le (words_props w hw).1) hword
  have hle := hword.le_length
  have hcopy := readHost_within hmem 511 (i + 6)
  have hhead : (lookMany 0 pos : Read Bytes).Within (· < data.length) mem :=
    lookMany_within fun k _ hk => by omega
  have htail : (lookMany pos (data.length - pos) : Read Bytes).Within (· < data.length) mem :=
    lookMany_within fun k _ hk => by omega
  rw [readPatch, value_bind, within_bind, hsome]
  simp only [value_bind, within_bind, hpos, readHost_value, value_ite, within_ite,
    if_neg (Nat.not_lt.mpr hle), hread, hreads, hhead, htail, within_pure, and_true,
    true_and, ite_self]
  exact ⟨rfl, and_congr_left fun _ => hcopy⟩

/-- A function that stays inside the segment has taken one of these ways. -/
theorem patch_cases (h : (readPatch data.length).Within (· < data.length) mem) :
    Absent data (ascii "Host: ") ∨ ∃ i, FirstAt data (ascii "Host: ") i ∧ ValueInside data (i + 6) ∧
      ((∀ w ∈ words, Absent data w) ∨ ∃ pos, FirstWord data words pos) := by
  rw [readPatch, within_bind] at h
  rcases find_within hmem (by decide +kernel) h.1 with ⟨i, hhost⟩ | habsent
  · have hrest := h.2
    rw [(find_first hmem (by decide +kernel) hhost).1] at hrest
    simp only [within_bind] at hrest
    have hword :=
      readWord_within hmem (fun w hw => Nat.le_of_succ_le (words_props w hw).1) hrest.2.1
    exact .inr ⟨i, hhost, (readHost_within hmem 511 (i + 6)).mp hrest.1, hword.symm⟩
  · exact .inl habsent

end

/-! ## Exactly when -/

theorem expected_of_none (h : request data = none) : expected data = .unchanged := by
  rw [expected, h]

theorem expected_of_some {pos : Nat} {host : Bytes} (h : request data = some (pos, host)) :
    expected data = .insert pos (ascii "http://" ++ host) := by
  rw [expected, h]

/-- What is left unchanged should be. -/
theorem unambiguous_of_unchanged (h : expected data = .unchanged)
    (hleft : LeftAlone data) : Unambiguous data := by
  cases hrequest : request data with
  | none =>
    rw [Unambiguous, hrequest]
    exact hleft
  | some r =>
    obtain ⟨pos, host⟩ := r
    rw [expected_of_some hrequest] at h
    cases h

theorem unambiguous_of_rewritten (hmem : HoldsSegment mem data)
    (hreads : (readPatch data.length).Within (· < data.length) mem)
    (hresult : (readPatch data.length).value mem = expected data) : Unambiguous data := by
  rcases patch_cases hmem hreads with habsent | ⟨i, hhost, hvalue, habsent | ⟨pos, hword⟩⟩
  · rw [(patch_hostless hmem habsent).1] at hresult
    exact unambiguous_of_unchanged hresult.symm (.hostless habsent)
  · rw [(patch_wordless hmem hhost hvalue habsent).1] at hresult
    exact unambiguous_of_unchanged hresult.symm (.wordless i hhost hvalue habsent)
  · obtain ⟨hpatch, hwithin⟩ := patch_found hmem hhost hword
    rw [hpatch] at hresult
    have htarget := (hwithin.mp hreads).2
    cases hequals : (readEquals (ascii "http:") pos).value mem with
    | true =>
      rw [hequals, if_pos rfl] at hresult
      exact unambiguous_of_unchanged hresult.symm
        (.absolute i pos hhost hvalue hword (prefix_readEquals hmem htarget hequals))
    | false =>
      rw [hequals, if_neg (by decide)] at hresult
      cases hrequest : request data with
      | none =>
        rw [expected_of_none hrequest] at hresult
        cases hresult
      | some r =>
        obtain ⟨pos', host⟩ := r
        rw [expected_of_some hrequest] at hresult
        injection hresult with hpos htext
        have hhost' := List.append_cancel_left htext
        subst hpos hhost'
        rw [Unambiguous, hrequest]
        have hcopied := (readHost_within hmem 511 (i + 6)).mpr hvalue
        exact ⟨⟨i, hhost, prefix_copyHost hmem hcopied (request_props hrequest).1⟩, hword⟩

theorem rewritten_of_unambiguous (hmem : HoldsSegment mem data) (h : Unambiguous data) :
    (readPatch data.length).value mem = expected data ∧
    (readPatch data.length).Within (· < data.length) mem := by
  unfold Unambiguous at h
  split at h
  · rename_i pos host hrequest
    obtain ⟨hlen, hclean, hcr, habsolute⟩ := request_props hrequest
    obtain ⟨⟨i, hhost, hprefix⟩, hword⟩ := h
    obtain ⟨hpatch, hwithin⟩ := patch_found hmem hhost hword
    obtain ⟨hfalse, htarget⟩ := readEquals_differs hmem hcr (by decide +kernel) habsolute
    rw [hpatch, hfalse, if_neg (by decide), copyHost_prefix hmem hprefix hclean (Nat.le_of_lt hlen),
      expected_of_some hrequest]
    exact ⟨rfl, hwithin.mpr ⟨cr_mem_take hprefix (Nat.lt_succ_of_lt hlen), htarget⟩⟩
  · rename_i hrequest
    rw [expected_of_none hrequest]
    cases h with
    | hostless habsent => exact patch_hostless hmem habsent
    | wordless i hhost hvalue habsent => exact patch_wordless hmem hhost hvalue habsent
    | absolute i pos hhost hvalue hword hprefix =>
      obtain ⟨hpatch, hwithin⟩ := patch_found hmem hhost hword
      obtain ⟨htrue, htarget⟩ := readEquals_prefix hmem hprefix
      rw [hpatch, htrue, if_pos rfl]
      exact ⟨rfl, hwithin.mpr ⟨hvalue, htarget⟩⟩

end

/-- The function does what it should on exactly the unambiguous segments, whatever lies behind
them. -/
theorem rewritten_iff (data : Bytes) (after : Memory) :
    Rewritten data after ↔ Unambiguous data := by
  have hmem := holds_memoryOf data after
  constructor
  · intro h
    exact unambiguous_of_rewritten hmem h.reads h.result
  · intro h
    obtain ⟨hresult, hreads⟩ := rewritten_of_unambiguous hmem h
    refine ⟨hreads, hresult, fun pos host hrequest => ?_⟩
    rw [hresult, expected_of_some hrequest]
    refine ⟨rfl, ?_⟩
    rw [length_apply, Patch.inserted, List.length_append, Nat.add_assoc]
    rfl

/-- A request whose body has a method word, and one that ends in its host. -/
def worded : Bytes := ascii "POST /a HTTP/1.1\r\nHost: a\r\n\r\nGET b"

def unended : Bytes := ascii "GET / HTTP/1.1\r\nHost: a"

/-- Of the first the body is changed; of the second the bytes behind it are copied. -/
theorem not_rewritten : ¬ Rewritten worded (fun _ => 0) ∧ ¬ Rewritten unended (fun _ => 13) := by
  constructor
  · intro h
    have hresult := h.result
    rw [readPatch_value] at hresult
    revert hresult
    decide +kernel
  · intro h
    exact absurd (h.reads 23 (by decide +kernel)) (by decide +kernel)

end PdaNetClient.Http
