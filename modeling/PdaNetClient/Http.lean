import PdaNetClient.Util

/-!
# `http.c`: rewriting a request for the proxy

`find_data` and `patch_http_url` are handed a pointer and a length, and they
follow the pointer past the length: memory is a function of the offset from the
pointer, the segment followed by whatever lies behind its buffer. The two loops
of `find_data` shorten one length, so both are structural on it.
-/
namespace PdaNetClient.Http

set_option autoImplicit false

abbrev Memory := Nat → UInt8

/-- A heap buffer holding `data`, with the bytes `after` behind it. -/
def memoryOf (data : Bytes) (after : Memory) : Memory :=
  fun i => if h : i < data.length then data[i] else after (i - data.length)

/-- `tolower` in the C locale -/
def toLower (c : UInt8) : UInt8 := if 65 ≤ c ∧ c ≤ 90 then c + 32 else c

/-- `strncasecmp(value, data + off, strlen(value)) == 0`; `value` has no zero byte,
so a zero in memory is a mismatch. -/
def matchesAt (mem : Memory) (value : Bytes) (off : Nat) : Bool :=
  (List.range value.length).all fun i => toLower (value.getD i 0) == toLower (mem (off + i))

/-- The inner loop stops at the first character of the value or at length two. -/
def skipToFirst (mem : Memory) (c : UInt8) : Nat → Nat → Nat × Nat
  | off, 0 => (off, 0)
  | off, len + 1 =>
    if mem off ≠ c ∧ len + 1 > 2 then skipToFirst mem c (off + 1) len else (off, len + 1)

/-- Each pass of the outer loop finds the value or shortens the length. -/
def findLoop (mem : Memory) (value : Bytes) : Nat → Nat → Nat → Option Nat
  | 0, _, _ => none
  | fuel + 1, off, len =>
    if len > 2 then
      let p := skipToFirst mem (value.getD 0 0) off len
      if matchesAt mem value p.1 then some p.1 else findLoop mem value fuel (p.1 + 1) (p.2 - 1)
    else none

def findData (mem : Memory) (dataLen : Nat) (value : Bytes) : Option Nat :=
  findLoop mem value dataLen 0 dataLen

/-- The copy of the host value: up to a carriage return, 511 bytes at most. -/
def copyHost (mem : Memory) : Nat → Nat → Bytes
  | 0, _ => []
  | room + 1, off => if mem off ≠ 13 then mem off :: copyHost mem room (off + 1) else []

/-- The method words in the order they are searched for, HEAD twice as in the source. -/
def words : List Bytes :=
  [ascii "GET ", ascii "POST ", ascii "PUT ", ascii "DELETE ", ascii "HEAD ", ascii "OPTIONS ",
    ascii "PATCH ", ascii "HEAD ", ascii "TRACE ", ascii "PROPFIND ", ascii "PROPPATCH ",
    ascii "MKCOL ", ascii "COPY ", ascii "MOVE ", ascii "LOCK ", ascii "UNLOCK ", ascii "LINK ",
    ascii "UNLINK "]

/-- Offset behind the first word of the list that occurs. -/
def findWord (mem : Memory) (dataLen : Nat) : List Bytes → Option Nat
  | [] => none
  | w :: ws =>
    match findData mem dataLen w with
    | some pos => some (pos + w.length)
    | none => findWord mem dataLen ws

/-- What `patch_http_url` hands back. `overrun` is the `memcpy` whose length
`*data_len - pos1` wraps because the word was matched across the end. -/
inductive Patch where
  | unchanged
  | insert (pos : Nat) (text : Bytes)
  | overrun
  deriving DecidableEq, Repr

def patchHttpUrl (mem : Memory) (dataLen : Nat) : Patch :=
  match findData mem dataLen (ascii "Host: ") with
  | none => .unchanged
  | some host =>
    let hostname := copyHost mem 511 (host + 6)
    match findWord mem dataLen words with
    | none => .unchanged
    | some pos1 =>
      if mem pos1 = 104 ∧ mem (pos1 + 1) = 116 ∧ mem (pos1 + 2) = 116 ∧ mem (pos1 + 3) = 112 ∧
          mem (pos1 + 4) = 58 then .unchanged
      else if dataLen < pos1 then .overrun
      else .insert pos1 (ascii "http://" ++ hostname)

/-- The text sent in place of `data`: the three copies into `patch_buffer`. -/
def Patch.apply (p : Patch) (data : Bytes) : Bytes :=
  match p with
  | .insert pos text => data.take pos ++ text ++ data.drop pos
  | _ => data

/-- How many bytes of the segment are among the first `k` of the text. -/
def Patch.original (p : Patch) (k : Nat) : Nat :=
  match p with
  | .insert pos text => if k ≤ pos then k else max pos (k - text.length)
  | _ => k

def Patch.inserted : Patch → Nat
  | .insert _ text => text.length
  | _ => 0

@[simp] theorem apply_unchanged (data : Bytes) : Patch.unchanged.apply data = data := rfl

@[simp] theorem length_apply (p : Patch) (data : Bytes) :
    (p.apply data).length = data.length + p.inserted := by
  cases p with
  | insert pos text =>
    simp only [Patch.apply, Patch.inserted, List.length_append, List.length_take, List.length_drop]
    omega
  | unchanged => rfl
  | overrun => rfl

/-- An insertion lies inside the segment and is never empty. -/
theorem patchHttpUrl_insert {mem : Memory} {dataLen pos : Nat} {text : Bytes}
    (h : patchHttpUrl mem dataLen = .insert pos text) : pos ≤ dataLen ∧ 7 ≤ text.length := by
  unfold patchHttpUrl at h
  split at h
  · cases h
  · split at h
    · cases h
    · simp only at h
      split at h
      · cases h
      · split at h
        · cases h
        · injection h with hpos htext
          subst hpos htext
          exact ⟨by omega, by simp [ascii]⟩

example : (patchHttpUrl (memoryOf (ascii "GET / HTTP/1.0\r\nHost: a\r\n") fun _ => 0) 25).apply
    (ascii "GET / HTTP/1.0\r\nHost: a\r\n") = ascii "GET http://a/ HTTP/1.0\r\nHost: a\r\n" := by
  decide +kernel

end PdaNetClient.Http
