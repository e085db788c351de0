import PdaNetClient.Reading
import PdaNetClient.Http
import PdaNetClient.Tls

/-!
# What `tls.c` reads and writes

The parser once more, with every byte it looks at and every byte it stores. Each walk
checks a length before it steps over it, so all it reads lies inside the segment; what it
stores is one name of at most 255 bytes and its terminator.
-/
namespace PdaNetClient.Tls

open Reading
open Http (Memory memoryOf)

set_option autoImplicit false

abbrev Read := Reader Nat UInt8

/-- What a walk does to the hostname buffer; a loop may still be running when its turns, one
for each byte of its data, are over. -/
inductive Outcome where
  | running
  | untouched
  | stores (bytes : Bytes)
  deriving DecidableEq, Repr

/-- `((unsigned char) data[i] << 8) + (unsigned char) data[i + 1]` -/
def look16 (i : Nat) : Read Nat := do
  let a ← look i
  let b ← look (i + 1)
  pure (a.toNat * 256 + b.toNat)

/-- The bytes that `strncpy` writes: up to a zero of the source, and zeros behind it. -/
def strncpy : Nat → Nat → Read Bytes
  | _, 0 => pure []
  | src, n + 1 => do
    let b ← look src
    if b = 0 then pure (List.replicate (n + 1) 0)
    else do
      let rest ← strncpy (src + 1) n
      pure (b :: rest)

/-- `parse_server_name_extension` of the `dataLen` bytes at `data`, from `pos` on. -/
def readServerName (data dataLen : Nat) : Nat → Nat → Read Outcome
  | turns, pos =>
    if pos + 3 < dataLen then
      match turns with
      | 0 => pure .running
      | turns + 1 => do
        let len ← look16 (data + pos + 1)
        if pos + 3 + len > dataLen then pure .untouched
        else do
          let kind ← look (data + pos)
          if kind = 0 then do
            let bytes ← strncpy (data + pos + 3) (min len fqdnMax)
            pure (.stores (bytes ++ [0]))
          else readServerName data dataLen turns (pos + 3 + len)
    else pure .untouched

/-- `parse_extensions` -/
def readExtensions (data dataLen : Nat) : Nat → Nat → Read Outcome
  | turns, pos =>
    if pos + 4 ≤ dataLen then
      match turns with
      | 0 => pure .running
      | turns + 1 => do
        let len ← look16 (data + pos + 2)
        let high ← look (data + pos)
        let low ← if high = 0 then look (data + pos + 1) else pure 1
        if high = 0 ∧ low = 0 then
          if pos + 4 + len > dataLen then pure .untouched
          else readServerName (data + pos + 4) len len 2
        else readExtensions data dataLen turns (pos + 4 + len)
    else pure .untouched

/-- The fields in front of the extensions. -/
def readClientHello (major minor : UInt8) (dataLen : Nat) : Read Outcome :=
  if tlsHeaderLen + 1 > dataLen then pure .untouched
  else do
    let kind ← look tlsHeaderLen
    if kind ≠ tlsHandshakeTypeClientHello then pure .untouched
    else
      let pos := tlsHeaderLen + 38
      if pos + 1 > dataLen then pure .untouched
      else do
        let len ← look pos
        let pos := pos + 1 + len.toNat
        if pos + 2 > dataLen then pure .untouched
        else do
          let len ← look16 pos
          let pos := pos + 2 + len
          if pos + 1 > dataLen then pure .untouched
          else do
            let len ← look pos
            let pos := pos + 1 + len.toNat
            if pos = dataLen ∧ major = 3 ∧ minor = 0 then pure .untouched
            else if pos + 2 > dataLen then pure .untouched
            else do
              let len ← look16 pos
              let pos := pos + 2
              if pos + len > dataLen then pure .untouched
              else readExtensions pos len len 0

/-- `parse_tls_header` of the `dataLen` bytes at 0. -/
def readTlsHeader (abi : Abi) (dataLen : Nat) : Read Outcome :=
  if dataLen < tlsHeaderLen then pure .untouched
  else do
    let contentType ← look 0
    let ssl2 ← if contentType &&& 0x80 ≠ 0 then look 2 else pure 0
    if ssl2 = 1 then pure .untouched
    else if contentType ≠ tlsHandshakeContentType then pure .untouched
    else do
      let major ← look 1
      let minor ← look 2
      if majorBelow3 abi major then pure .untouched
      else do
        let len ← look16 3
        let len := len + tlsHeaderLen
        if min dataLen len < len then pure .untouched
        else readClientHello major minor (min dataLen len)

/-! ## Safety -/

/-- A string of at most 255 bytes with its terminator, in at most 256 bytes. -/
structure Terminated (bytes : Bytes) : Prop where
  written : bytes.length ≤ 256
  terminator : 0 ∈ bytes
  string : (cString bytes).length ≤ 255

/-- Nothing is read at `n` or behind it, what is stored is a string, and the walk ends if it
has turns enough. -/
structure Safe (n : Nat) (enough : Prop) (mem : Memory) (r : Read Outcome) : Prop where
  reads : r.Within (· < n) mem
  stores : ∀ bytes, r.value mem = .stores bytes → Terminated bytes
  ends : enough → r.value mem ≠ .running

section

variable {n : Nat} {enough : Prop} {mem : Memory}

theorem safe_untouched : Safe n enough mem (pure .untouched) :=
  ⟨within_pure mem _ _, fun _ h => by simp at h, fun _ => by simp⟩

theorem safe_running (h : ¬ enough) : Safe n enough mem (pure .running) :=
  ⟨within_pure mem _ _, fun _ h => by simp at h, fun henough => absurd henough h⟩

theorem Safe.mono {r : Read Outcome} {enough' : Prop} (h : Safe n enough mem r)
    (himp : enough' → enough) :
    Safe n enough' mem r :=
  ⟨h.reads, h.stores, fun henough => h.ends (himp henough)⟩

theorem safe_look {i : Nat} {f : UInt8 → Read Outcome} (hi : i < n)
    (h : Safe n enough mem (f (mem i))) :
    Safe n enough mem (look i >>= f) := by
  refine ⟨?_, fun bytes => h.stores bytes, fun henough => h.ends henough⟩
  rw [within_bind, within_look]
  exact ⟨hi, h.reads⟩

theorem look16_value (i : Nat) : (look16 i).value mem = (mem i).toNat * 256 + (mem (i + 1)).toNat :=
  rfl

theorem safe_look16 {i : Nat} {f : Nat → Read Outcome} (hi : i + 1 < n)
    (h : Safe n enough mem (f ((mem i).toNat * 256 + (mem (i + 1)).toNat))) :
    Safe n enough mem (look16 i >>= f) := by
  have hlt : i < n := Nat.lt_of_succ_lt hi
  have hlook : (look16 i).Within (· < n) mem := by simp [look16, hi, hlt]
  have hvalue : (look16 i >>= f).value mem =
      (f ((mem i).toNat * 256 + (mem (i + 1)).toNat)).value mem := by
    rw [value_bind, look16_value]
  refine ⟨?_, fun bytes => ?_, fun henough => ?_⟩
  · rw [within_bind, look16_value]
    exact ⟨hlook, h.reads⟩
  · rw [hvalue]
    exact h.stores bytes
  · rw [hvalue]
    exact h.ends henough

theorem safe_ite {c : Prop} [Decidable c] {r s : Read Outcome} (hr : c → Safe n enough mem r)
    (hs : ¬ c → Safe n enough mem s) : Safe n enough mem (if c then r else s) := by
  split
  · rename_i hc
    exact hr hc
  · rename_i hc
    exact hs hc

theorem strncpy_succ_value (src len : Nat) :
    (strncpy src (len + 1)).value mem =
      if mem src = 0 then List.replicate (len + 1) 0 else mem src ::
        (strncpy (src + 1) len).value mem := by
  show (if mem src = 0 then pure _ else _ : Read Bytes).value mem = _
  rw [value_ite]
  rfl

theorem strncpy_within (mem : Memory) (src len : Nat) (h : src + len ≤ n) :
    (strncpy src len).Within (· < n) mem := by
  induction len generalizing src with
  | zero => exact within_pure mem _ _
  | succ len ih =>
    have hrest := ih (src + 1) (by omega)
    simp only [strncpy, ↓within_bind, ↓within_look, ↓value_look, ↓within_ite]
    refine ⟨by omega, ?_⟩
    split
    · exact within_pure mem _ _
    · exact ⟨hrest, within_pure mem _ _⟩

theorem strncpy_length (src len : Nat) : ((strncpy src len).value mem).length = len := by
  induction len generalizing src with
  | zero => rfl
  | succ len ih =>
    rw [strncpy_succ_value]
    split
    · exact List.length_replicate
    · rw [List.length_cons, ih]

theorem cString_lt_of_terminator {bytes : Bytes} (h : 0 ∈ bytes) :
    (cString bytes).length < bytes.length := by
  induction bytes with
  | nil => simp at h
  | cons b bytes ih =>
    by_cases hb : b = 0
    · simp [cString, hb]
    · have hrest := ih ((List.mem_cons.mp h).resolve_left (Ne.symm hb))
      simpa [cString, hb] using hrest

theorem terminated_copy {bytes : Bytes} (h : bytes.length ≤ fqdnMax) :
    Terminated (bytes ++ [0]) := by
  have hlen : (bytes ++ [0]).length ≤ 256 := by
    rw [List.length_append]
    exact Nat.succ_le_succ h
  have hmem : (0 : UInt8) ∈ bytes ++ [0] := by simp
  have hlt := cString_lt_of_terminator hmem
  exact ⟨hlen, hmem, by omega⟩

theorem readServerName_safe (data dataLen : Nat) (hdata : data + dataLen ≤ n) (turns pos : Nat) :
    Safe n (dataLen ≤ pos + turns) mem (readServerName data dataLen turns pos) := by
  induction turns generalizing pos with
  | zero =>
    unfold readServerName
    refine safe_ite (fun hpos => safe_running ?_) fun _ => safe_untouched
    omega
  | succ turns ih =>
    unfold readServerName
    refine safe_ite (fun hpos => ?_) fun _ => safe_untouched
    refine safe_look16 (by omega) (safe_ite (fun _ => safe_untouched) fun hlen => ?_)
    refine safe_look (by omega) (safe_ite (fun _ => ?_) fun _ => ?_)
    · -- the name, cut to 255 bytes, lies inside the list
      generalize (mem (data + pos + 1)).toNat * 256 + (mem (data + pos + 1 + 1)).toNat =
        len at hlen ⊢
      have hmin : min len fqdnMax ≤ len := Nat.min_le_left _ _
      refine ⟨?_, fun bytes hbytes => ?_, fun _ => by simp⟩
      · simpa using strncpy_within mem (data + pos + 3) (min len fqdnMax) (by omega)
      · obtain rfl : (strncpy (data + pos + 3) (min len fqdnMax)).value mem ++ [0] = bytes :=
          Outcome.stores.inj hbytes
        refine terminated_copy ?_
        rw [strncpy_length]
        exact Nat.min_le_right _ _
    · exact (ih _).mono (by omega)

theorem readExtensions_safe (data dataLen : Nat) (hdata : data + dataLen ≤ n) (turns pos : Nat) :
    Safe n (dataLen ≤ pos + turns) mem (readExtensions data dataLen turns pos) := by
  induction turns generalizing pos with
  | zero =>
    unfold readExtensions
    refine safe_ite (fun hpos => safe_running ?_) fun _ => safe_untouched
    omega
  | succ turns ih =>
    unfold readExtensions
    refine safe_ite (fun hpos => ?_) fun _ => safe_untouched
    refine safe_look16 (by omega) (safe_look (by omega) ?_)
    generalize (mem (data + pos + 2)).toNat * 256 + (mem (data + pos + 2 + 1)).toNat = len
    have hrest (low : UInt8) : Safe n (dataLen ≤ pos + (turns + 1)) mem
        (if mem (data + pos) = 0 ∧ low = 0 then
          if pos + 4 + len > dataLen then pure .untouched
            else readServerName (data + pos + 4) len len 2
        else readExtensions data dataLen turns (pos + 4 + len)) := by
      refine safe_ite (fun _ => safe_ite (fun _ => safe_untouched) fun hlen => ?_) fun _ => ?_
      · exact (readServerName_safe (data + pos + 4) len (by omega) len 2).mono (by omega)
      · exact (ih _).mono (by omega)
    by_cases hhigh : mem (data + pos) = 0
    · rw [if_pos hhigh]
      exact safe_look (by omega) (hrest _)
    · rw [if_neg hhigh]
      exact hrest 1

theorem readClientHello_safe (major minor : UInt8) (dataLen : Nat) (hdata : dataLen ≤ n) :
    Safe n True mem (readClientHello major minor dataLen) := by
  unfold readClientHello
  refine safe_ite (fun _ => safe_untouched) fun h0 => ?_
  have htls : tlsHeaderLen = 5 := rfl
  refine safe_look (by omega) (safe_ite (fun _ => safe_untouched) fun _ => ?_)
  refine safe_ite (fun _ => safe_untouched) fun h1 => safe_look (by omega) ?_
  refine safe_ite (fun _ => safe_untouched) fun h2 => safe_look16 (by omega) ?_
  refine safe_ite (fun _ => safe_untouched) fun h3 => safe_look (by omega) ?_
  refine safe_ite (fun _ => safe_untouched) fun _ => ?_
  refine safe_ite (fun _ => safe_untouched) fun h4 => safe_look16 (by omega) ?_
  refine safe_ite (fun _ => safe_untouched) fun h5 => ?_
  exact (readExtensions_safe _ _ (by omega) _ 0).mono (by omega)

theorem readTlsHeader_safe (abi : Abi) : Safe n True mem (readTlsHeader abi n) := by
  unfold readTlsHeader
  have htls : tlsHeaderLen = 5 := rfl
  refine safe_ite (fun _ => safe_untouched) fun h0 => safe_look (by omega) ?_
  have hrest (ssl2 : UInt8) : Safe n True mem
      (if ssl2 = 1 then pure .untouched
      else if mem 0 ≠ tlsHandshakeContentType then pure .untouched
      else do
        let major ← look 1
        let minor ← look 2
        if majorBelow3 abi major then pure .untouched
        else do
          let len ← look16 3
          let len := len + tlsHeaderLen
          if min n len < len then pure .untouched
          else readClientHello major minor (min n len)) := by
    refine safe_ite (fun _ => safe_untouched) fun _ =>
      safe_ite (fun _ => safe_untouched) fun _ => ?_
    refine safe_look (by omega)
      (safe_look (by omega) (safe_ite (fun _ => safe_untouched) fun _ => ?_))
    refine safe_look16 (by omega) (safe_ite (fun _ => safe_untouched) fun _ => ?_)
    exact readClientHello_safe _ _ (min _ _) (Nat.min_le_left _ _)
  by_cases hbit : mem 0 &&& 0x80 ≠ 0
  · rw [if_pos hbit]
    exact safe_look (by omega) (hrest _)
  · rw [if_neg hbit]
    exact hrest 0

end

/-- The parser ends, reads inside the data, and stores nothing but a string of at most 255 bytes. -/
structure ParsesSafely (abi : Abi) (data : Bytes) (after : Memory) : Prop where
  ends : (readTlsHeader abi data.length).value (memoryOf data after) ≠ .running
  reads : (readTlsHeader abi data.length).Within (· < data.length) (memoryOf data after)
  stores : ∀ bytes, (readTlsHeader abi data.length).value (memoryOf data after) = .stores bytes →
    Terminated bytes

theorem parseTlsHeader_safe (abi : Abi) (data : Bytes) (after : Memory) :
    ParsesSafely abi data after where
  ends := (readTlsHeader_safe abi).ends trivial
  reads := (readTlsHeader_safe abi).reads
  stores := (readTlsHeader_safe abi).stores

/-! ## The value

The buffer then holds what the parser of the bytes says. -/

/-- The string in the buffer. -/
def Outcome.apply (hostname : Bytes) : Outcome → Bytes
  | .running | .untouched => hostname
  | .stores bytes => cString bytes

/-- The bytes of `data` lie at `base`. -/
def Holds (mem : Memory) (base : Nat) (data : Bytes) : Prop :=
  ∀ i, i < data.length → mem (base + i) = byteAt data i

section

variable {mem : Memory}

theorem Holds.slice {base : Nat} {data : Bytes} (h : Holds mem base data) (pos len : Nat)
    (hlen : pos + len ≤ data.length) :
    Holds mem (base + pos) ((data.drop pos).take len) := by
  intro i hi
  have hi : i < len := Nat.lt_of_lt_of_le hi (List.length_take_le _ _)
  rw [Nat.add_assoc, h (pos + i) (by omega), byteAt, byteAt]
  simp [List.getD_eq_getElem?_getD, List.getElem?_drop, hi]

theorem look16_of_holds {base : Nat} {data : Bytes} (h : Holds mem base data) {i : Nat}
    (hi : i + 1 < data.length) :
    (look16 (base + i)).value mem = be16 data i := by
  rw [look16_value, h i (by omega), Nat.add_assoc, h (i + 1) hi]
  rfl

/-- The copied bytes and their terminator are the string at the source, cut to its length. -/
theorem strncpy_string {base : Nat} {data : Bytes} (h : Holds mem base data) (len : Nat)
    (hlen : len ≤ data.length) :
    cString ((strncpy base len).value mem ++ [0]) = cString (data.take len) := by
  induction len generalizing base data with
  | zero => simp [strncpy, cString]
  | succ len ih =>
    cases data with
    | nil => simp at hlen
    | cons b data =>
      have hb : mem base = b := h 0 (by simp)
      have htail : Holds mem (base + 1) data := by
        intro i hi
        have hnext : mem (base + (i + 1)) = byteAt data i := h (i + 1) (by simpa using hi)
        rwa [Nat.add_comm i, ← Nat.add_assoc] at hnext
      have hrest := ih htail (by simpa using hlen)
      rw [strncpy_succ_value, hb]
      split
      · rename_i hzero
        simp [cString, hzero, List.replicate_succ]
      · rename_i hne
        simpa [cString, hne] using hrest

theorem readServerName_value {base : Nat} {data : Bytes} (h : Holds mem base data)
    (hostname : Bytes) (turns pos : Nat) :
    ((readServerName base data.length turns pos).value mem).apply hostname =
      serverNameLoop data hostname turns pos := by
  induction turns generalizing pos with
  | zero =>
    unfold readServerName serverNameLoop
    split <;> rfl
  | succ turns ih =>
    unfold readServerName serverNameLoop
    by_cases hpos : pos + 3 < data.length
    · have hsize : (look16 (base + pos + 1)).value mem = be16 data (pos + 1) :=
        look16_of_holds h (i := pos + 1) (by omega)
      have hkind : (look (base + pos)).value mem = byteAt data pos := h pos (by omega)
      rw [if_pos hpos, if_pos hpos, value_bind, hsize]
      simp only
      by_cases hlen : pos + 3 + be16 data (pos + 1) > data.length
      · rw [if_pos hlen, if_pos hlen]
        rfl
      · rw [if_neg hlen, if_neg hlen, value_bind, hkind]
        by_cases hzero : byteAt data pos = 0
        · rw [if_pos hzero, if_pos hzero, value_bind]
          have hmin : min (be16 data (pos + 1)) fqdnMax ≤ be16 data (pos + 1) := Nat.min_le_left _ _
          have hname := h.slice (pos + 3) (be16 data (pos + 1)) (by omega)
          have hcopy := strncpy_string hname (min (be16 data (pos + 1)) fqdnMax) (by simp; omega)
          rw [List.take_take, Nat.min_eq_left hmin] at hcopy
          exact hcopy
        · rw [if_neg hzero, if_neg hzero]
          exact ih _
    · rw [if_neg hpos, if_neg hpos]
      rfl

theorem readExtensions_value {base : Nat} {data : Bytes} (h : Holds mem base data)
    (hostname : Bytes) (turns pos : Nat) :
    ((readExtensions base data.length turns pos).value mem).apply hostname =
      extensionsLoop data hostname turns pos := by
  induction turns generalizing pos with
  | zero =>
    unfold readExtensions extensionsLoop
    split <;> rfl
  | succ turns ih =>
    unfold readExtensions extensionsLoop
    by_cases hpos : pos + 4 ≤ data.length
    · have hsize : (look16 (base + pos + 2)).value mem = be16 data (pos + 2) :=
        look16_of_holds h (i := pos + 2) (by omega)
      have hhigh : (look (base + pos)).value mem = byteAt data pos := h pos (by omega)
      have hlow : (look (base + pos + 1)).value mem = byteAt data (pos + 1) :=
        h (pos + 1) (by omega)
      rw [if_pos hpos, if_pos hpos, value_bind, hsize, value_bind, hhigh]
      simp only
      -- the low byte is read only behind a high byte of zero
      have hnext : ∀ low : UInt8, (byteAt data pos = 0 → low = byteAt data (pos + 1)) →
          ((if byteAt data pos = 0 ∧ low = 0 then
            if pos + 4 + be16 data (pos + 2) > data.length then pure .untouched
            else readServerName (base + pos + 4) (be16 data (pos + 2)) (be16 data (pos + 2)) 2
          else readExtensions base data.length turns (pos + 4 + be16 data (pos + 2)) :
            Read Outcome).value mem).apply hostname =
          if byteAt data pos = 0 ∧ byteAt data (pos + 1) = 0 then
            if pos + 4 + be16 data (pos + 2) > data.length then hostname
            else parseServerNameExtension
              ((data.drop (pos + 4)).take (be16 data (pos + 2))) hostname
          else extensionsLoop data hostname turns (pos + 4 + be16 data (pos + 2)) := by
        intro low hlow'
        by_cases htype : byteAt data pos = 0 ∧ byteAt data (pos + 1) = 0
        · have htype' : byteAt data pos = 0 ∧ low = 0 := ⟨htype.1, (hlow' htype.1).trans htype.2⟩
          rw [if_pos htype, if_pos htype']
          by_cases hlen : pos + 4 + be16 data (pos + 2) > data.length
          · rw [if_pos hlen, if_pos hlen]
            rfl
          · rw [if_neg hlen, if_neg hlen]
            have hbody := h.slice (pos + 4) (be16 data (pos + 2)) (by omega)
            have hlength : ((data.drop (pos + 4)).take (be16 data (pos + 2))).length =
                be16 data (pos + 2) := by
              rw [List.length_take, List.length_drop]
              omega
            have hvalue := readServerName_value hbody hostname (be16 data (pos + 2)) 2
            rw [hlength] at hvalue
            rw [parseServerNameExtension, hlength, ← hvalue, Nat.add_assoc]
        · have htype' : ¬ (byteAt data pos = 0 ∧ low = 0) := fun hboth =>
            htype ⟨hboth.1, (hlow' hboth.1).symm.trans hboth.2⟩
          rw [if_neg htype, if_neg htype']
          exact ih _
      by_cases hzero : byteAt data pos = 0
      · rw [if_pos hzero, value_bind, hlow]
        exact hnext _ fun _ => rfl
      · rw [if_neg hzero, value_bind, value_pure]
        exact hnext 1 fun h0 => absurd h0 hzero
    · rw [if_neg hpos, if_neg hpos]
      rfl

theorem readExtensions_slice {data : Bytes} (h : Holds mem 0 data) (pos len : Nat)
    (hostname : Bytes) (hlen : pos + len ≤ data.length) :
    ((readExtensions pos len len 0).value mem).apply hostname =
      parseExtensions ((data.drop pos).take len) hostname := by
  have hslice := h.slice pos len hlen
  have hlength : ((data.drop pos).take len).length = len := by
    rw [List.length_take, List.length_drop]
    omega
  have hvalue := readExtensions_value hslice hostname len 0
  rw [hlength, Nat.zero_add] at hvalue
  rw [parseExtensions, hlength, hvalue]

/-- A check that both parsers make. -/
theorem apply_guard {c : Prop} [Decidable c] {hostname x : Bytes} {r : Read Outcome}
    (h : ¬ c → (r.value mem).apply hostname = x) :
    ((if c then pure .untouched else r : Read Outcome).value mem).apply hostname =
      if c then hostname else x := by
  split
  · rfl
  · rename_i hc
    exact h hc

theorem readClientHello_value {data : Bytes} (h : Holds mem 0 data) (major minor : UInt8)
    (hostname : Bytes) :
    ((readClientHello major minor data.length).value mem).apply hostname =
      parseClientHello major minor data hostname := by
  have hbyte (i : Nat) (hi : i < data.length) : (look i).value mem = byteAt data i := by
    simpa using h i hi
  have hsize (i : Nat) (hi : i + 1 < data.length) : (look16 i).value mem = be16 data i := by
    simpa using look16_of_holds h hi
  have htls : tlsHeaderLen = 5 := rfl
  unfold readClientHello parseClientHello
  refine apply_guard fun h0 => ?_
  rw [value_bind, hbyte _ (by omega)]
  refine apply_guard fun _ => apply_guard fun h1 => ?_
  rw [value_bind, hbyte _ (by omega)]
  refine apply_guard fun h2 => ?_
  rw [value_bind, hsize _ (by omega)]
  refine apply_guard fun h3 => ?_
  rw [value_bind, hbyte _ (by omega)]
  refine apply_guard fun _ => apply_guard fun h4 => ?_
  rw [value_bind, hsize _ (by omega)]
  refine apply_guard fun h5 => ?_
  exact readExtensions_slice h _ _ hostname (Nat.not_lt.mp h5)

theorem readRecord_value {data : Bytes} (h : Holds mem 0 data) (hlen : tlsHeaderLen ≤ data.length)
    (abi : Abi) (hostname : Bytes) :
    ((do
      let major ← look 1
      let minor ← look 2
      if majorBelow3 abi major then pure .untouched
      else do
        let len ← look16 3
        let len := len + tlsHeaderLen
        if min data.length len < len then pure .untouched
        else readClientHello major minor (min data.length len) :
          Read Outcome).value mem).apply hostname =
      if majorBelow3 abi (byteAt data 1) then hostname
      else if min data.length (be16 data 3 + tlsHeaderLen) <
        be16 data 3 + tlsHeaderLen then hostname
      else parseClientHello (byteAt data 1) (byteAt data 2)
        (data.take (be16 data 3 + tlsHeaderLen)) hostname := by
  have htls : tlsHeaderLen = 5 := rfl
  have hmajor : (look 1).value mem = byteAt data 1 := by simpa using h 1 (by omega)
  have hminor : (look 2).value mem = byteAt data 2 := by simpa using h 2 (by omega)
  have hsize : (look16 3).value mem = be16 data 3 := by
    simpa using look16_of_holds h (i := 3) (by omega)
  rw [value_bind, hmajor, value_bind, hminor]
  refine apply_guard fun _ => ?_
  rw [value_bind, hsize]
  refine apply_guard fun hwhole => ?_
  have hmin : min data.length (be16 data 3 + tlsHeaderLen) = be16 data 3 + tlsHeaderLen := by omega
  have hrecord : Holds mem 0 (data.take (be16 data 3 + tlsHeaderLen)) := by
    simpa using h.slice 0 (be16 data 3 + tlsHeaderLen) (by omega)
  have hvalue := readClientHello_value hrecord (byteAt data 1) (byteAt data 2) hostname
  rw [List.length_take, Nat.min_comm, hmin] at hvalue
  rw [hmin]
  exact hvalue

/-- The parser with its reads computes the one of the bytes. -/
theorem readTlsHeader_value (abi : Abi) (data : Bytes) (after : Memory) (hostname : Bytes) :
    ((readTlsHeader abi data.length).value (memoryOf data after)).apply hostname =
      parseTlsHeader abi data hostname := by
  have h : Holds (memoryOf data after) 0 data := by
    intro i hi
    simp [memoryOf, byteAt, hi]
  have htls : tlsHeaderLen = 5 := rfl
  unfold readTlsHeader parseTlsHeader
  refine apply_guard fun h0 => ?_
  have htype : (look 0).value (memoryOf data after) = byteAt data 0 := by simpa using h 0 (by omega)
  have hssl2 : (look 2).value (memoryOf data after) = byteAt data 2 := by simpa using h 2 (by omega)
  have hrecord := readRecord_value h (by omega) abi hostname
  rw [value_bind, htype]
  by_cases hbit : byteAt data 0 &&& 0x80 ≠ 0
  · have hboth : (byteAt data 0 &&& 0x80 ≠ 0 ∧ byteAt data 2 = 1) ↔ byteAt data 2 = 1 :=
      and_iff_right hbit
    simp only [hboth]
    rw [if_pos hbit, value_bind, hssl2]
    exact apply_guard fun _ => apply_guard fun _ => hrecord
  · have hboth : ¬ (byteAt data 0 &&& 0x80 ≠ 0 ∧ byteAt data 2 = 1) := fun hboth => hbit hboth.1
    have hzero : ¬ (0 : UInt8) = 1 := by decide
    rw [if_neg hboth, if_neg hbit, value_bind, value_pure]
    beta_reduce
    rw [if_neg hzero]
    exact apply_guard fun _ => hrecord

end

end PdaNetClient.Tls
