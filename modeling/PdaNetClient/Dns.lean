import PdaNetClient.IpPacket
import PdaNetClient.Walks

/-!
# `dns.c`

Names, queries and responses. The place in the message is a 16-bit number and the count of
stored bytes an 8-bit one; both wrap around. What is stored goes to buffers of the callers.
-/
namespace PdaNetClient.Dns

open Reading Walks
open Http (Memory memoryOf)
open Ip (Read be16 be32)

set_option autoImplicit false

def dnsQclassIn : Nat := 1
def dnsQtypeA : Nat := 1
def dnsQtypeAaaa : Nat := 28
def dnsQnameMax : Nat := 255
def sizeofDnsHeader : Nat := 12

/-- A buffer for a name, and the places of it that were written. -/
structure Buffer where
  bytes : Nat → UInt8
  writes : List Nat

namespace Buffer

def put (b : Buffer) (i : Nat) (v : UInt8) : Buffer where
  bytes := fun j => if j = i then v else b.bytes j
  writes := i :: b.writes

/-- `memcpy` to place `i` of the buffer. -/
def copy (b : Buffer) : Nat → Bytes → Buffer
  | _, [] => b
  | i, v :: rest => (b.put i v).copy (i + 1) rest

end Buffer

/-! ## `get_qname` -/

/-- The variables of the loop. -/
structure Qname where
  c : Bool
  noff : BitVec 8
  ptr : BitVec 16
  off : BitVec 16
  qname : Buffer

/-- `while (len)`, with `len` the byte at `ptr` whenever it is tested; the value of `len` behind the
loop, and no result while it is still running after as many turns. -/
def qnameLoop (datalen : Nat) : Nat → Qname → Read (Option (UInt8 × Qname))
  | turns, s => do
    let len ← look s.ptr.toNat
    if len = 0 then pure (some (len, s))
    else match turns with
      | 0 => pure none
      | turns + 1 =>
        if len &&& 0xC0 ≠ 0 then do
          let low ← look (s.ptr.toNat + 1)
          qnameLoop datalen turns
            { s with
              ptr := BitVec.ofNat 16 ((len &&& 0x3F).toNat * 256 + low.toNat)
              c := true
              off := if s.c then s.off else s.off + 2 }
        else if s.ptr.toNat + 1 + len.toNat ≤ datalen ∧
            s.noff.toNat + len.toNat ≤ dnsQnameMax then do
          let label ← lookMany (s.ptr.toNat + 1) len.toNat
          qnameLoop datalen turns
            { s with
              qname := (s.qname.copy s.noff.toNat label).put (s.noff.toNat + len.toNat) 46
              noff := s.noff + BitVec.ofNat 8 (len.toNat + 1)
              ptr := s.ptr + BitVec.ofNat 16 (len.toNat + 1) }
        else pure (some (len, s))

/-- What follows the loop. -/
def endQname (len : UInt8) (s : Qname) : Int × Buffer :=
  if len > 0 ∨ s.noff = 0 then (-1, s.qname)
  else ((if s.c then s.off else s.ptr + 1).toNat, s.qname.put (s.noff.toNat - 1) 0)

/-- The variables before the loop. -/
def startQname (off : BitVec 16) (qname : Buffer) : Qname :=
  { c := false, noff := 0, ptr := off, off := off, qname := qname.put 0 0 }

/-- The returned offset or -1, and the buffer. -/
def getQname (datalen turns : Nat) (off : BitVec 16) (qname : Buffer) :
    Read (Option (Int × Buffer)) := do
  let r ← qnameLoop datalen turns (startQname off qname)
  pure (r.map fun r => endQname r.1 r.2)

/-! ## Messages -/

/-- `strcpy` from place `i` on; no result while it is still running after as many turns. -/
def strcpy (src : Buffer) : Nat → Nat → Buffer → Option Buffer
  | 0, _, _ => none
  | turns + 1, i, dst =>
    if src.bytes i = 0 then some (dst.put i 0)
      else strcpy src turns (i + 1) (dst.put i (src.bytes i))

/-- The fields of a record behind its name. -/
structure RecordFields where
  qtype : Nat
  qclass : Nat
  ttl : U32
  rdlength : Nat
  deriving DecidableEq, Repr

def readRecord (off : Nat) : Read RecordFields := do
  let qtype ← be16 off
  let qclass ← be16 (off + 2)
  let ttl ← be32 (off + 4)
  let rdlength ← be16 (off + 8)
  pure ⟨qtype, qclass, ttl, rdlength⟩

/-- What `inet_ntop` reads of a record's data. -/
def readAddress (rr : RecordFields) (off : Nat) : Read Bytes :=
  if rr.qclass = dnsQclassIn ∧ (rr.qtype = dnsQtypeA ∨ rr.qtype = dnsQtypeAaaa) then
    if rr.qtype = dnsQtypeA then lookMany off 4
    else if rr.qclass = dnsQclassIn ∧ rr.qtype = dnsQtypeAaaa then lookMany off 16
    else pure []
  else pure []

/-- The loop over `acount` answers from `off` on. -/
def answerLoop (datalen turns : Nat) : Nat → Nat → Buffer → Read (Option Buffer)
  | 0, _, name => pure (some name)
  | acount + 1, off, name => do
    let r ← getQname datalen turns (BitVec.ofNat 16 off) name
    match r with
    | none => pure none
    | some (r, name) =>
      if 0 < r ∧ r + 10 ≤ datalen then do
        let rr ← readRecord r.toNat
        let off := r.toNat + 10
        if off + rr.rdlength ≤ datalen then do
          let _ ← readAddress rr off
          answerLoop datalen turns acount (off + rr.rdlength) name
        else pure (some name)
      else pure (some name)

/-- `dns->qr` and `dns->opcode` are the values. -/
def headerIs (flags qr : UInt8) : Prop := flags >>> 7 = qr ∧ (flags >>> 3) &&& 0xF = 0

instance (flags qr : UInt8) : Decidable (headerIs flags qr) := inferInstanceAs (Decidable (_ ∧ _))

/-- The buffers `name` and `qname` behind `parse_dns_response`. -/
def parseDnsResponse (datalen turns : Nat) (name qname : Buffer) :
    Read (Option (Buffer × Buffer)) :=
  if datalen < sizeofDnsHeader + 1 then pure (some (name, qname))
  else do
    let qcount ← be16 4
    let acount ← be16 6
    let flags ← look 2
    if headerIs flags 1 ∧ 0 < qcount ∧ 0 < acount then do
      let r ← getQname datalen turns (BitVec.ofNat 16 sizeofDnsHeader) name
      match r with
      | none => pure none
      | some (r, name) =>
        if 0 < r ∧ r + 4 ≤ datalen then
          match strcpy name turns 0 qname with
          | none => pure none
          | some qname => do
            let _qtype ← be16 r.toNat
            let _qclass ← be16 (r.toNat + 2)
            let name ← answerLoop datalen turns acount (r.toNat + 4) name
            pure (name.map fun name => (name, qname))
        else pure (some (name, qname))
    else pure (some (name, qname))

/-- `qtype` and `qclass` where 0 is returned, and the buffer `qname`. -/
def getDnsQuery (datalen turns : Nat) (qname : Buffer) :
    Read (Option (Option (Nat × Nat) × Buffer)) :=
  if datalen < sizeofDnsHeader + 1 then pure (some (none, qname))
  else do
    let qcount ← be16 4
    let flags ← look 2
    if headerIs flags 0 ∧ 0 < qcount then do
      let r ← getQname datalen turns (BitVec.ofNat 16 sizeofDnsHeader) qname
      match r with
      | none => pure none
      | some (r, qname) =>
        if 0 < r ∧ r + 4 = datalen then do
          let qtype ← be16 r.toNat
          let qclass ← be16 (r.toNat + 2)
          pure (some (some (qtype, qclass), qname))
        else pure (some (none, qname))
    else pure (some (none, qname))

/-! ## Walks over names -/

/-- A place of the message, and the count of the bytes stored before it. -/
abbrev Place := BitVec 16 × BitVec 8

def Qname.place (s : Qname) : Place := (s.ptr, s.noff)

section

variable (mem : Memory) (datalen : Nat)

/-- The byte is not the length of a label: one of its upper two bits is set. -/
def isPointer (p : Place) : Prop := mem p.1.toNat &&& 0xC0 ≠ 0

instance (p : Place) : Decidable (isPointer mem p) := inferInstanceAs (Decidable (_ ≠ _))

def target (p : Place) : BitVec 16 :=
  BitVec.ofNat 16 ((mem p.1.toNat &&& 0x3F).toNat * 256 + (mem (p.1.toNat + 1)).toNat)

/-- The label that is stored from here. -/
def labelAt (p : Place) : Option Bytes :=
  if mem p.1.toNat ≠ 0 ∧ ¬ isPointer mem p ∧ p.1.toNat + 1 + (mem p.1.toNat).toNat ≤ datalen ∧
      p.2.toNat + (mem p.1.toNat).toNat ≤ dnsQnameMax then
    some ((List.range' (p.1.toNat + 1) (mem p.1.toNat).toNat).map mem)
  else none

def behind (p : Place) (label : Bytes) : Place :=
  (p.1 + BitVec.ofNat 16 (label.length + 1), p.2 + BitVec.ofNat 8 (label.length + 1))

def next (p : Place) : Option Place :=
  if isPointer mem p then some (target mem p, p.2) else (labelAt mem datalen p).map (behind p)

/-- A label and its dot in the buffer. -/
def store (b : Buffer) (p : Place) (label : Bytes) : Buffer :=
  (b.copy p.2.toNat label).put (p.2.toNat + label.length) 46

/-- The variables behind a turn. -/
def turn (s : Qname) : Qname :=
  if isPointer mem s.place then
    { s with ptr := target mem s.place, c := true, off := if s.c then s.off else s.off + 2 }
  else match labelAt mem datalen s.place with
    | none => s
    | some label =>
      { s with
        qname := store s.qname s.place label
        noff := (behind s.place label).2
        ptr := (behind s.place label).1 }

end

section

variable {mem : Memory} {datalen : Nat}

theorem not_isPointer_of_zero {p : Place} (h : mem p.1.toNat = 0) : ¬ isPointer mem p := by
  simp [isPointer, h]

theorem next_of_zero {p : Place} (h : mem p.1.toNat = 0) : next mem datalen p = none := by
  rw [next, if_neg (not_isPointer_of_zero h), labelAt, if_neg fun hall => hall.1 h]
  rfl

theorem labelAt_length {p : Place} {label : Bytes} (h : labelAt mem datalen p = some label) :
    label.length = (mem p.1.toNat).toNat ∧ p.1.toNat + 1 + label.length ≤ datalen ∧
      p.2.toNat + label.length ≤ dnsQnameMax := by
  unfold labelAt at h
  split at h
  · rename_i hall
    have hlen : label.length = (mem p.1.toNat).toNat := by simp [← Option.some.inj h]
    rw [hlen]
    exact ⟨rfl, hall.2.2.1, hall.2.2.2⟩
  · cases h

/-- The loop looks at the byte before it does anything else. -/
theorem loop_out (s : Qname) :
    (qnameLoop datalen 0 s).value mem =
      (if mem s.ptr.toNat = 0 then some (mem s.ptr.toNat, s) else none) ∧
      ∀ P, (qnameLoop datalen 0 s).Within P mem ↔ P s.ptr.toNat := by
  unfold qnameLoop
  constructor
  · rw [value_bind, value_look, value_ite]
    rfl
  · intro P
    rw [within_bind, within_look, value_look, within_ite]
    simp

theorem loop_stop (turns : Nat) (s : Qname) (h : next mem datalen s.place = none) :
    (qnameLoop datalen (turns + 1) s).value mem = some (mem s.ptr.toNat, s) ∧
      ∀ P, (qnameLoop datalen (turns + 1) s).Within P mem ↔ P s.ptr.toNat := by
  have hplace : ¬ isPointer mem s.place := by
    intro hp
    rw [next, if_pos hp] at h
    cases h
  have hpointer : ¬ mem s.ptr.toNat &&& 0xC0 ≠ 0 := hplace
  rw [next, if_neg hplace, Option.map_eq_none_iff, labelAt] at h
  have hfits : mem s.ptr.toNat ≠ 0 →
      ¬ (s.ptr.toNat + 1 + (mem s.ptr.toNat).toNat ≤ datalen ∧
        s.noff.toNat + (mem s.ptr.toNat).toNat ≤ dnsQnameMax) := by
    intro hzero hfits
    rw [if_pos ⟨hzero, hpointer, hfits⟩] at h
    cases h
  unfold qnameLoop
  by_cases hzero : mem s.ptr.toNat = 0
  · constructor
    · rw [value_bind, value_look, value_ite, if_pos hzero]
      rfl
    · intro P
      rw [within_bind, within_look, value_look, within_ite, if_pos hzero]
      simp
  · have hno := hfits hzero
    constructor
    · rw [value_bind, value_look, value_ite, if_neg hzero, value_ite, if_neg hpointer,
        value_ite, if_neg hno]
      rfl
    · intro P
      rw [within_bind, within_look, value_look, within_ite, if_neg hzero, within_ite,
        if_neg hpointer, within_ite, if_neg hno]
      simp

theorem loop_pointer (datalen turns : Nat) {s : Qname} (h : isPointer mem s.place) :
    (qnameLoop datalen (turns + 1) s).value mem =
      (qnameLoop datalen turns (turn mem datalen s)).value mem ∧
      ∀ P, (qnameLoop datalen (turns + 1) s).Within P mem ↔
        P s.ptr.toNat ∧ P (s.ptr.toNat + 1) ∧
        (qnameLoop datalen turns (turn mem datalen s)).Within P mem := by
  have hlen : mem s.ptr.toNat &&& 0xC0 ≠ 0 := h
  have hzero : ¬ mem s.ptr.toNat = 0 := fun h0 => not_isPointer_of_zero h0 h
  rw [turn, if_pos h]
  constructor
  · rw [qnameLoop, value_bind, value_look, value_ite, if_neg hzero, value_ite, if_pos hlen]
    rfl
  · intro P
    rw [qnameLoop, within_bind, within_look, value_look, within_ite, if_neg hzero, within_ite,
      if_pos hlen, within_bind, within_look, value_look]
    rfl

theorem turn_label {s : Qname} {label : Bytes} (hpointer : ¬ isPointer mem s.place)
    (hlabel : labelAt mem datalen s.place = some label) :
    turn mem datalen s =
      { s with
        qname := (s.qname.copy s.noff.toNat label).put (s.noff.toNat + label.length) 46
        noff := s.noff + BitVec.ofNat 8 (label.length + 1)
        ptr := s.ptr + BitVec.ofNat 16 (label.length + 1) } := by
  rw [turn, if_neg hpointer, hlabel]
  rfl

theorem loop_label (turns : Nat) {s : Qname} {label : Bytes} (hpointer : ¬ isPointer mem s.place)
    (hlabel : labelAt mem datalen s.place = some label) :
    (qnameLoop datalen (turns + 1) s).value mem =
      (qnameLoop datalen turns (turn mem datalen s)).value mem ∧
      ∀ P, (qnameLoop datalen (turns + 1) s).Within P mem ↔
        P s.ptr.toNat ∧ (∀ i, s.ptr.toNat + 1 ≤ i → i < s.ptr.toNat + 1 + label.length → P i) ∧
          (qnameLoop datalen turns (turn mem datalen s)).Within P mem := by
  have hlen : ¬ mem s.ptr.toNat &&& 0xC0 ≠ 0 := hpointer
  have hzero : ¬ mem s.ptr.toNat = 0 := fun h0 => by
    rw [labelAt, if_neg fun hall => hall.1 h0] at hlabel
    cases hlabel
  obtain ⟨hlength, hroom, hcount⟩ := labelAt_length hlabel
  have hsize : (mem s.ptr.toNat).toNat = label.length := hlength.symm
  have hfits : s.ptr.toNat + 1 + label.length ≤ datalen ∧
    s.noff.toNat + label.length ≤ dnsQnameMax := ⟨hroom, hcount⟩
  have hbytes : (lookMany (s.ptr.toNat + 1) label.length).value mem = label := by
    rw [labelAt, hlength.symm, if_pos ⟨hzero, hpointer, hfits⟩] at hlabel
    rw [lookMany_value]
    exact Option.some.inj hlabel
  constructor
  · rw [qnameLoop, value_bind, value_look, value_ite, if_neg hzero, value_ite, if_neg hlen,
      hsize, value_ite, if_pos hfits, value_bind, hbytes, ← turn_label hpointer hlabel]
  · intro P
    rw [qnameLoop, within_bind, within_look, value_look, within_ite, if_neg hzero, within_ite,
      if_neg hlen, hsize, within_ite, if_pos hfits, within_bind, hbytes,
      ← turn_label hpointer hlabel, within_lookMany]

theorem loop_next (turns : Nat) (s : Qname) {p : Place} (h : next mem datalen s.place = some p) :
    (turn mem datalen s).place = p ∧
      (qnameLoop datalen (turns + 1) s).value mem =
        (qnameLoop datalen turns (turn mem datalen s)).value mem ∧
      ∀ P, (qnameLoop datalen (turns + 1) s).Within P mem ↔
        P s.ptr.toNat ∧ (isPointer mem s.place → P (s.ptr.toNat + 1)) ∧
          (∀ label, ¬ isPointer mem s.place → labelAt mem datalen s.place = some label →
            ∀ i, s.ptr.toNat + 1 ≤ i → i < s.ptr.toNat + 1 + label.length → P i) ∧
          (qnameLoop datalen turns (turn mem datalen s)).Within P mem := by
  by_cases hpointer : isPointer mem s.place
  · obtain ⟨hvalue, hwithin⟩ := loop_pointer datalen turns hpointer
    rw [next, if_pos hpointer] at h
    refine ⟨?_, hvalue, fun P => ?_⟩
    · rw [turn, if_pos hpointer]
      exact Option.some.inj h
    · rw [hwithin]
      simp only [hpointer, not_true_eq_false, false_implies, implies_true, true_and, true_implies]
  · rw [next, if_neg hpointer] at h
    obtain ⟨label, hlabel, rfl⟩ := Option.map_eq_some_iff.mp h
    obtain ⟨hvalue, hwithin⟩ := loop_label turns hpointer hlabel
    refine ⟨?_, hvalue, fun P => ?_⟩
    · rw [turn_label hpointer hlabel]
      rfl
    · rw [hwithin]
      simp only [hpointer, hlabel, false_implies, true_and, not_false_eq_true, true_implies,
        Option.some.injEq, forall_eq']

/-- What a turn keeps, the loop keeps; and it ends where the walk over the places does. -/
theorem loop_keeps (I : Qname → Prop)
    (hturn : ∀ s p, next mem datalen s.place = some p → I s → I (turn mem datalen s)) {turns : Nat}
    {s s' : Qname} {len : UInt8} (h : (qnameLoop datalen turns s).value mem = some (len, s'))
    (hs : I s) :
    I s' ∧ len = mem s'.ptr.toNat := by
  induction turns generalizing s with
  | zero =>
    rw [(loop_out s).1] at h
    split at h
    · cases h
      exact ⟨hs, rfl⟩
    · cases h
  | succ turns ih =>
    cases hnext : next mem datalen s.place with
    | none =>
      rw [(loop_stop turns s hnext).1] at h
      cases h
      exact ⟨hs, rfl⟩
    | some p =>
      rw [(loop_next turns s hnext).2.1] at h
      exact ih h (hturn s p hnext hs)

theorem walk_of_loop {turns : Nat} {s : Qname} (h : (qnameLoop datalen turns s).value mem ≠ none) :
    ∃ l, Walk (next mem datalen) s.place l := by
  induction turns generalizing s with
  | zero =>
    rw [(loop_out s).1] at h
    split at h
    · rename_i hzero
      exact ⟨_, .stop (next_of_zero hzero)⟩
    · exact absurd rfl h
  | succ turns ih =>
    cases hnext : next mem datalen s.place with
    | none => exact ⟨_, .stop hnext⟩
    | some p =>
      obtain ⟨hplace, hvalue, -⟩ := loop_next turns s hnext
      rw [hvalue] at h
      obtain ⟨l, hl⟩ := ih h
      rw [hplace] at hl
      exact ⟨_, .step hnext hl⟩

/-- The labels that are stored along a walk, with their places. -/
def stored (mem : Memory) (datalen : Nat) (l : List Place) : List (Place × Bytes) :=
  l.filterMap fun p => if isPointer mem p then none else (labelAt mem datalen p).map (p, ·)

/-- The variables where a walk has ended. -/
structure Walked (mem : Memory) (datalen : Nat) (l : List Place) (s s' : Qname) : Prop where
  place : l.getLast? = some s'.place
  c : s'.c = (s.c || l.any (isPointer mem ·))
  off : s'.off = if s.c = false ∧ l.any (isPointer mem ·) then s.off + 2 else s.off
  qname : s'.qname = (stored mem datalen l).foldl (fun b e => store b e.1 e.2) s.qname

theorem stored_stop {p : Place} (h : next mem datalen p = none) : stored mem datalen [p] = [] := by
  rw [next] at h
  split at h
  · cases h
  · rename_i hpointer
    simp [stored, hpointer, Option.map_eq_none_iff.mp h]

theorem walked_stop {s : Qname} (h : next mem datalen s.place = none) :
    Walked mem datalen [s.place] s s := by
  have hpointer : ¬ isPointer mem s.place := by
    intro hp
    rw [next, if_pos hp] at h
    cases h
  refine ⟨rfl, by simp [hpointer], by simp [hpointer], ?_⟩
  rw [stored_stop h]
  rfl

theorem walked_next {s s' : Qname} {l : List Place} (hl : l ≠ [])
    (h : next mem datalen s.place ≠ none) (hrest : Walked mem datalen l (turn mem datalen s) s') :
    Walked mem datalen (s.place :: l) s s' := by
  have hlast : (s.place :: l).getLast? = l.getLast? := List.getLast?_cons_of_ne_nil hl
  by_cases hpointer : isPointer mem s.place
  · have hturn : turn mem datalen s =
        { s with ptr := target mem s.place, c := true, off := if s.c then s.off
          else s.off + 2 } := by
      rw [turn, if_pos hpointer]
    rw [hturn] at hrest
    constructor
    · rw [hlast, hrest.place]
    · simp [hrest.c, hpointer]
    · rw [hrest.off]
      cases s.c <;> simp [hpointer]
    · rw [hrest.qname]
      simp [stored, hpointer]
  · rw [next, if_neg hpointer] at h
    obtain ⟨label, hlabel⟩ := Option.ne_none_iff_exists'.mp (fun h0 => h (by rw [h0]; rfl) :
      labelAt mem datalen s.place ≠ none)
    have hturn : turn mem datalen s =
        { s with
          qname := store s.qname s.place label
          noff := (behind s.place label).2
          ptr := (behind s.place label).1 } := by
      rw [turn, if_neg hpointer, hlabel]
    rw [hturn] at hrest
    constructor
    · rw [hlast, hrest.place]
    · simp [hrest.c, hpointer]
    · simp [hrest.off, hpointer]
    · rw [hrest.qname]
      simp [stored, hpointer, hlabel]

/-- As many turns as the walk has places are enough. -/
theorem loop_ends {p : Place} {l : List Place} (h : Walk (next mem datalen) p l) {turns : Nat}
    {s : Qname} (hs : s.place = p) (hturns : l.length ≤ turns) :
    (qnameLoop datalen turns s).value mem ≠ none := by
  induction h generalizing turns s with
  | stop hnone =>
    subst hs
    obtain ⟨turns, rfl⟩ := Nat.exists_eq_succ_of_ne_zero (n := turns) (by simp at hturns; omega)
    rw [(loop_stop turns s hnone).1]
    exact Option.some_ne_none _
  | step hsome _ ih =>
    subst hs
    obtain ⟨turns, rfl⟩ := Nat.exists_eq_succ_of_ne_zero (n := turns) (by simp at hturns; omega)
    obtain ⟨hplace, hvalue, -⟩ := loop_next turns s hsome
    rw [hvalue]
    exact ih hplace (by simpa using hturns)

/-- Wherever the loop ends, it has walked to the end. -/
theorem loop_walked {p : Place} {l : List Place} (h : Walk (next mem datalen) p l) {turns : Nat}
    {s : Qname} {r : UInt8 × Qname} (hs : s.place = p)
    (hvalue : (qnameLoop datalen turns s).value mem = some r) :
    Walked mem datalen l s r.2 := by
  induction h generalizing turns s with
  | stop hnone =>
    subst hs
    have hend : r.2 = s := by
      cases turns with
      | zero =>
        rw [(loop_out s).1] at hvalue
        split at hvalue
        · cases hvalue
          rfl
        · cases hvalue
      | succ turns =>
        rw [(loop_stop turns s hnone).1] at hvalue
        cases hvalue
        rfl
    rw [hend]
    exact walked_stop hnone
  | step hsome hwalk ih =>
    subst hs
    cases turns with
    | zero =>
      rw [(loop_out s).1] at hvalue
      split at hvalue
      · rename_i hzero
        rw [next_of_zero (p := s.place) hzero] at hsome
        cases hsome
      · cases hvalue
    | succ turns =>
      obtain ⟨hplace, hsame, -⟩ := loop_next turns s hsome
      rw [hsame] at hvalue
      exact walked_next hwalk.ne_nil (by rw [hsome]; exact Option.some_ne_none _) (ih hplace hvalue)

end

end PdaNetClient.Dns
