import Mathlib.Data.FinEnum
import Mathlib.Data.Finite.Prod
import PdaNetClient.Dns

/-!
# What `dns.c` reads and writes

The stored bytes never leave the buffers of 256 bytes. What is read may lie anywhere: the
place of a length byte is compared with the length of the message only together with its
label, a pointer not at all, and nothing counts the pointers that were followed.
-/
namespace PdaNetClient.Dns

open Reading Walks
open Http (Memory memoryOf)
open Ip (Read be16 be32)

set_option autoImplicit false

/-! ## The properties -/

/-- Some number of turns is enough, and all that is read in them lies inside the message. -/
def EndsInside {α : Type} (datalen : Nat) (mem : Memory) (r : Nat → Read (Option α)) : Prop :=
  ∃ turns, (r turns).value mem ≠ none ∧ (r turns).Within (· < datalen) mem

/-- Nothing outside the `DNS_QNAME_MAX + 1` bytes was written. -/
def InBuffer (b : Buffer) : Prop := ∀ i ∈ b.writes, i < dnsQnameMax + 1

structure QuerySafe (mem : Memory) (datalen : Nat) : Prop where
  ends : ∀ qname, EndsInside datalen mem fun turns => getDnsQuery datalen turns qname
  writes : ∀ turns qname r b, (getDnsQuery datalen turns qname).value mem = some (r, b) →
    InBuffer qname → InBuffer b

structure ResponseSafe (mem : Memory) (datalen : Nat) : Prop where
  ends : ∀ name qname, EndsInside datalen mem fun turns => parseDnsResponse datalen turns name qname
  writes : ∀ turns name qname b, (parseDnsResponse datalen turns name qname).value mem = some b →
    InBuffer name → InBuffer qname → InBuffer b.1 ∧ InBuffer b.2

/-- The length byte, and the low byte of a pointer, lie inside the message. -/
def Inside (mem : Memory) (datalen : Nat) (p : Place) : Prop :=
  p.1.toNat < datalen ∧ (isPointer mem p → p.1.toNat + 1 < datalen)

/-- Followed over its labels and pointers, the name does not come back to a place with the same
count of stored bytes, and does not leave the message. -/
structure NameSafe (mem : Memory) (datalen : Nat) (off : BitVec 16) : Prop where
  acyclic : Acyclic (next mem datalen) (off, 0)
  inside : ∀ p, Reaches (next mem datalen) (off, 0) p → Inside mem datalen p

/-- Where the parser takes the name at `off` to end. -/
def endOf (mem : Memory) (off : BitVec 16) (l : List Place) : Int :=
  match l.getLast? with
  | none => -1
  | some p =>
    if mem p.1.toNat ≠ 0 ∨ p.2 = 0 then -1
    else (if l.any (isPointer mem ·) then off + 2 else p.1 + 1).toNat

/-- The fields behind the name and the data behind them lie inside the message. -/
def Complete (mem : Memory) (datalen : Nat) (r : Int) : Prop :=
  0 < r ∧ r + 10 ≤ datalen ∧ r.toNat + 10 + ((readRecord r.toNat).value mem).rdlength ≤ datalen

/-- The message has the 4 or 16 bytes of an address from `off` on. -/
def AddressInside (datalen : Nat) (rr : RecordFields) (off : Nat) : Prop :=
  rr.qclass = dnsQclassIn →
    (rr.qtype = dnsQtypeA → off + 4 ≤ datalen) ∧ (rr.qtype = dnsQtypeAaaa → off + 16 ≤ datalen)

/-- Of the next `acount` records, those that the parser comes to. -/
def RecordsSafe (mem : Memory) (datalen : Nat) : Nat → Nat → Prop
  | 0, _ => True
  | acount + 1, off =>
    NameSafe mem datalen (BitVec.ofNat 16 off) ∧
      ∀ l, Walk (next mem datalen) (BitVec.ofNat 16 off, 0) l →
      ∀ r, r = endOf mem (BitVec.ofNat 16 off) l →
        Complete mem datalen r →
        AddressInside datalen ((readRecord r.toNat).value mem) (r.toNat + 10) ∧
          RecordsSafe mem datalen acount (r.toNat + 10 + ((readRecord r.toNat).value mem).rdlength)

/-- A query whose name is looked at. -/
def IsQuery (mem : Memory) (datalen : Nat) : Prop :=
  sizeofDnsHeader + 1 ≤ datalen ∧ headerIs (mem 2) 0 ∧ 0 < (be16 4).value mem

def IsResponse (mem : Memory) (datalen : Nat) : Prop :=
  sizeofDnsHeader + 1 ≤ datalen ∧ headerIs (mem 2) 1 ∧ 0 < (be16 4).value mem ∧
    0 < (be16 6).value mem

/-- The name of the question, and behind it the records. -/
structure MessageSafe (mem : Memory) (datalen : Nat) : Prop where
  question : NameSafe mem datalen (BitVec.ofNat 16 sizeofDnsHeader)
  answers : ∀ l, Walk (next mem datalen) (BitVec.ofNat 16 sizeofDnsHeader, 0) l →
    ∀ r, r = endOf mem (BitVec.ofNat 16 sizeofDnsHeader) l → 0 < r → r + 4 ≤ datalen →
      RecordsSafe mem datalen ((be16 6).value mem) (r.toNat + 4)

section

variable {mem : Memory} {datalen : Nat}

/-! ## Names -/

theorem nameSafe_iff {off : BitVec 16} : NameSafe mem datalen off ↔
    ∃ l, Walk (next mem datalen) (off, 0) l ∧ ∀ p ∈ l, Inside mem datalen p := by
  constructor
  · intro h
    obtain ⟨l, hl⟩ := exists_walk_of_acyclic h.acyclic
    exact ⟨l, hl, fun p hp => h.inside p (hl.mem_iff.mp hp)⟩
  · intro ⟨l, hl, hinside⟩
    exact ⟨hl.acyclic, fun p hp => hinside p (hl.mem_iff.mpr hp)⟩

/-- A loop that has ended has looked at the places of its walk. -/
theorem loop_within {p : Place} {l : List Place} (h : Walk (next mem datalen) p l) {turns : Nat}
    {s : Qname} (hs : s.place = p) (hend : (qnameLoop datalen turns s).value mem ≠ none) :
    (qnameLoop datalen turns s).Within (· < datalen) mem ↔ ∀ q ∈ l, Inside mem datalen q := by
  induction h generalizing turns s with
  | stop hnone =>
    subst hs
    have hpointer : ¬ isPointer mem s.place := by
      intro hp
      rw [next, if_pos hp] at hnone
      cases hnone
    have hone : (∀ q ∈ [s.place], Inside mem datalen q) ↔ s.ptr.toNat < datalen := by
      rw [List.forall_mem_singleton, Inside, and_iff_left fun hp => absurd hp hpointer]
      rfl
    rw [hone]
    cases turns with
    | zero => exact (loop_out s).2 _
    | succ turns => exact (loop_stop turns s hnone).2 _
  | @step p t l hsome _ ih =>
    subst hs
    cases turns with
    | zero =>
      have hzero : ¬ mem s.ptr.toNat = 0 := fun h0 => by
        rw [next_of_zero (p := s.place) h0] at hsome
        cases hsome
      rw [(loop_out s).1, if_neg hzero] at hend
      exact absurd rfl hend
    | succ turns =>
      obtain ⟨hplace, hvalue, hwithin⟩ := loop_next turns s hsome
      rw [hvalue] at hend
      rw [hwithin, ih hplace hend, List.forall_mem_cons, Inside, and_assoc]
      have hlabel : ∀ label, ¬ isPointer mem s.place → labelAt mem datalen s.place = some label →
          ∀ i, s.ptr.toNat + 1 ≤ i → i < s.ptr.toNat + 1 + label.length → i < datalen := by
        intro label _ hlabel i _ hlt
        exact Nat.lt_of_lt_of_le hlt (labelAt_length hlabel).2.1
      exact and_congr_right fun _ => and_congr_right fun _ => and_iff_right hlabel

theorem Buffer.copy_writes (b : Buffer) (i : Nat) (label : Bytes) :
    ∀ j ∈ (b.copy i label).writes, j ∈ b.writes ∨ (i ≤ j ∧ j < i + label.length) := by
  induction label generalizing b i with
  | nil => exact fun j hj => .inl hj
  | cons v label ih =>
    intro j hj
    rcases ih (b.put i v) (i + 1) j hj with h | h
    · rcases List.mem_cons.mp h with rfl | h
      · exact .inr ⟨Nat.le_refl _, by simp⟩
      · exact .inl h
    · exact .inr ⟨by omega, by simp; omega⟩

theorem InBuffer.put {b : Buffer} (h : InBuffer b) {i : Nat} (hi : i ≤ dnsQnameMax) (v : UInt8) :
    InBuffer (b.put i v) := by
  intro j hj
  rcases List.mem_cons.mp hj with rfl | hj
  · exact Nat.lt_succ_of_le hi
  · exact h j hj

theorem turn_inBuffer {s : Qname} (h : InBuffer s.qname) : InBuffer (turn mem datalen s).qname := by
  unfold turn
  split
  · exact h
  · split
    · exact h
    · rename_i label hlabel
      have hcount := (labelAt_length hlabel).2.2
      have hcopy : InBuffer (s.qname.copy s.place.2.toNat label) := by
        intro j hj
        rcases s.qname.copy_writes _ _ j hj with hj | hj
        · exact h j hj
        · omega
      exact hcopy.put hcount 46

theorem getQname_value {turns : Nat} {off : BitVec 16} {qname : Buffer} {r : Int × Buffer}
    (h : (getQname datalen turns off qname).value mem = some r) :
    ∃ len s, (qnameLoop datalen turns (startQname off qname)).value mem = some (len, s) ∧
      len = mem s.ptr.toNat ∧ r = endQname len s := by
  obtain ⟨⟨len, s⟩, hloop, rfl⟩ := Option.map_eq_some_iff.mp h
  exact ⟨len, s, hloop, (loop_keeps (fun _ => True) (fun _ _ _ _ => trivial) hloop trivial).2, rfl⟩

theorem getQname_ends_iff {turns : Nat} {off : BitVec 16} {qname : Buffer} :
    (getQname datalen turns off qname).value mem ≠ none ↔
      (qnameLoop datalen turns (startQname off qname)).value mem ≠ none := by
  rw [not_iff_not]
  exact Option.map_eq_none_iff

theorem getQname_within {turns : Nat} {off : BitVec 16} {qname : Buffer} (P : Nat → Prop) :
    (getQname datalen turns off qname).Within P mem ↔
      (qnameLoop datalen turns (startQname off qname)).Within P mem := by
  rw [getQname, within_bind]
  exact and_iff_left (within_pure _ _ _)

/-- What `get_qname` returns behind a walk. -/
theorem getQname_walk {off : BitVec 16} {l : List Place} (h : Walk (next mem datalen) (off, 0) l)
    {turns : Nat} {qname : Buffer} {r : Int × Buffer}
    (hvalue : (getQname datalen turns off qname).value mem = some r) :
    r.1 = endOf mem off l := by
  obtain ⟨len, s, hloop, rfl, rfl⟩ := getQname_value hvalue
  have hwalked := loop_walked h (s := startQname off qname) rfl hloop
  have hc : s.c = l.any (isPointer mem ·) := by rw [hwalked.c, startQname, Bool.false_or]
  have hoff : s.off = if s.c then off + 2 else off := by
    rw [hwalked.off, hc]
    simp [startQname]
  have hlen : mem s.ptr.toNat > 0 ↔ mem s.place.1.toNat ≠ 0 := UInt8.pos_iff_ne_zero
  have hnoff : s.noff = 0 ↔ s.place.2 = 0 := Iff.rfl
  rw [endOf, hwalked.place]
  simp only [endQname, hlen, hnoff]
  split
  · rfl
  · rw [hoff, ← hc]
    cases s.c <;> rfl

theorem getQname_inBuffer {turns : Nat} {off : BitVec 16} {qname : Buffer} {r : Int × Buffer}
    (h : (getQname datalen turns off qname).value mem = some r)
    (hqname : InBuffer qname) : InBuffer r.2 := by
  obtain ⟨len, s, hloop, -, rfl⟩ := getQname_value h
  have hstart : InBuffer (startQname off qname).qname := hqname.put (Nat.zero_le _) 0
  obtain ⟨hs, -⟩ := loop_keeps (fun s => InBuffer s.qname) (fun _ _ _ => turn_inBuffer) hloop hstart
  unfold endQname
  split
  · exact hs
  · have hnoff := s.noff.isLt
    have hmax : dnsQnameMax = 255 := rfl
    exact hs.put (by omega) 0

/-- A name that is accepted ends with a zero byte in its buffer. -/
theorem getQname_terminated {turns : Nat} {off : BitVec 16} {qname : Buffer} {r : Int × Buffer}
    (h : (getQname datalen turns off qname).value mem = some r) (hpos : 0 < r.1) :
    ∃ k < dnsQnameMax, r.2.bytes k = 0 := by
  obtain ⟨len, s, -, -, rfl⟩ := getQname_value h
  unfold endQname at hpos ⊢
  split at hpos
  · simp at hpos
  · rename_i hvalid
    rw [if_neg hvalid]
    have hnoff := s.noff.isLt
    have hmax : dnsQnameMax = 255 := rfl
    exact ⟨s.noff.toNat - 1, by omega, if_pos rfl⟩

/-- A call that returns has read the places of the walk. -/
theorem getQname_inside {turns : Nat} {off : BitVec 16} {qname : Buffer}
    (hend : (getQname datalen turns off qname).value mem ≠ none) :
    (getQname datalen turns off qname).Within (· < datalen) mem ↔ NameSafe mem datalen off := by
  rw [getQname_ends_iff] at hend
  obtain ⟨l, hl⟩ := walk_of_loop hend
  rw [getQname_within, loop_within hl rfl hend, nameSafe_iff]
  constructor
  · exact fun hinside => ⟨l, hl, hinside⟩
  · intro ⟨m, hm, hinside⟩
    rwa [hl.unique hm]

theorem NameSafe.ends {off : BitVec 16} (h : NameSafe mem datalen off) :
    ∃ enough, ∀ turns qname, enough ≤ turns →
    (getQname datalen turns off qname).value mem ≠ none := by
  obtain ⟨l, hl⟩ := exists_walk_of_acyclic h.acyclic
  refine ⟨l.length, fun turns qname hturns => ?_⟩
  rw [getQname_ends_iff]
  exact loop_ends hl rfl hturns

/-! ## Records -/

theorem readRecord_within {off : Nat} (h : off + 10 ≤ datalen) :
    (readRecord off).Within (· < datalen) mem := by
  simp [readRecord]
  omega

theorem readAddress_within (rr : RecordFields) (off : Nat) :
    (readAddress rr off).Within (· < datalen) mem ↔ AddressInside datalen rr off := by
  have hmany (n : Nat) (hn : 0 < n) : (lookMany off n).Within (· < datalen) mem ↔
      off + n ≤ datalen := by
    rw [within_lookMany]
    refine ⟨fun h => ?_, fun h i _ hlt => by omega⟩
    have := h (off + n - 1) (by omega) (by omega)
    omega
  unfold readAddress AddressInside
  by_cases hclass : rr.qclass = dnsQclassIn
  · by_cases hA : rr.qtype = dnsQtypeA
    · rw [if_pos ⟨hclass, .inl hA⟩, if_pos hA, hmany 4 (by decide)]
      simp [hclass, hA, dnsQtypeA, dnsQtypeAaaa]
    · by_cases hAaaa : rr.qtype = dnsQtypeAaaa
      · rw [if_pos ⟨hclass, .inr hAaaa⟩, if_neg hA, if_pos ⟨hclass, hAaaa⟩, hmany 16 (by decide)]
        simp [hclass, hAaaa, dnsQtypeA, dnsQtypeAaaa]
      · rw [if_neg fun h => h.2.elim hA hAaaa]
        simp [hclass, hA, hAaaa]
  · rw [if_neg fun h => hclass h.1]
    simp [hclass]

section

variable {turns acount off : Nat} {name : Buffer} {r : Int × Buffer}

theorem answer_none (h : (getQname datalen turns (BitVec.ofNat 16 off) name).value mem = none) :
    (answerLoop datalen turns (acount + 1) off name).value mem = none := by
  rw [answerLoop, value_bind, h]
  rfl

theorem answer_stop (acount : Nat)
    (h : (getQname datalen turns (BitVec.ofNat 16 off) name).value mem = some r)
    (hstop : ¬ Complete mem datalen r.1) :
    (answerLoop datalen turns (acount + 1) off name).value mem = some r.2 ∧
      ((answerLoop datalen turns (acount + 1) off name).Within (· < datalen) mem ↔
        (getQname datalen turns (BitVec.ofNat 16 off) name).Within (· < datalen) mem) := by
  rw [answerLoop, value_bind, within_bind, h]
  by_cases hr : 0 < r.1 ∧ r.1 + 10 ≤ datalen
  · have hlen : ¬ r.1.toNat + 10 + ((readRecord r.1.toNat).value mem).rdlength ≤ datalen :=
      fun hlen => hstop ⟨hr.1, hr.2, hlen⟩
    have hread : (readRecord r.1.toNat).Within (· < datalen) mem := readRecord_within (by omega)
    simp only [if_pos hr, value_bind, within_bind, if_neg hlen, value_pure, within_pure,
      and_true, hread]
  · simp only [if_neg hr, value_pure, within_pure, and_true]

theorem answer_next (acount : Nat)
    (h : (getQname datalen turns (BitVec.ofNat 16 off) name).value mem = some r)
    (hnext : Complete mem datalen r.1) :
    let rr := (readRecord r.1.toNat).value mem
    let rest := answerLoop datalen turns acount (r.1.toNat + 10 + rr.rdlength) r.2
    (answerLoop datalen turns (acount + 1) off name).value mem = rest.value mem ∧
      ((answerLoop datalen turns (acount + 1) off name).Within (· < datalen) mem ↔
        (getQname datalen turns (BitVec.ofNat 16 off) name).Within (· < datalen) mem ∧
          AddressInside datalen rr (r.1.toNat + 10) ∧ rest.Within (· < datalen) mem) := by
  obtain ⟨hpos, hfields, hlen⟩ := hnext
  have hr : 0 < r.1 ∧ r.1 + 10 ≤ datalen := ⟨hpos, hfields⟩
  have hread : (readRecord r.1.toNat).Within (· < datalen) mem := readRecord_within (by omega)
  rw [answerLoop, value_bind, within_bind, h]
  simp only [if_pos hr, value_bind, within_bind, if_pos hlen, hread, readAddress_within, true_and]

theorem answer_ends (h : (answerLoop datalen turns (acount + 1) off name).value mem ≠ none) :
    ∃ r, (getQname datalen turns (BitVec.ofNat 16 off) name).value mem = some r := by
  cases hq : (getQname datalen turns (BitVec.ofNat 16 off) name).value mem with
  | none => exact absurd (answer_none hq) h
  | some r => exact ⟨r, rfl⟩

end

theorem records_of_run {turns acount off : Nat} {name : Buffer}
    (hend : (answerLoop datalen turns acount off name).value mem ≠ none)
    (hreads : (answerLoop datalen turns acount off name).Within (· < datalen) mem) :
    RecordsSafe mem datalen acount off := by
  induction acount generalizing off name with
  | zero => trivial
  | succ acount ih =>
    obtain ⟨r, hq⟩ := answer_ends hend
    have hqend : (getQname datalen turns (BitVec.ofNat 16 off) name).value mem ≠ none := by
      rw [hq]
      exact Option.some_ne_none r
    by_cases hcomplete : Complete mem datalen r.1
    · obtain ⟨hvalue, hwithin⟩ := answer_next _ hq hcomplete
      rw [hvalue] at hend
      obtain ⟨hname, haddress, hrest⟩ := hwithin.mp hreads
      refine ⟨(getQname_inside hqend).mp hname, fun l hl r' hr' _ => ?_⟩
      rw [← getQname_walk hl hq] at hr'
      subst hr'
      exact ⟨haddress, ih hend hrest⟩
    · refine ⟨(getQname_inside hqend).mp ((answer_stop _ hq hcomplete).2.mp hreads),
        fun l hl r' hr' hc => ?_⟩
      rw [← getQname_walk hl hq] at hr'
      exact absurd (hr' ▸ hc) hcomplete

theorem run_of_records {acount off : Nat} (h : RecordsSafe mem datalen acount off) :
    ∃ enough, ∀ turns name, enough ≤ turns →
    (answerLoop datalen turns acount off name).value mem ≠ none ∧
      (answerLoop datalen turns acount off name).Within (· < datalen) mem := by
  induction acount generalizing off with
  | zero => exact ⟨0, fun turns name _ => ⟨Option.some_ne_none name, within_pure _ _ _⟩⟩
  | succ acount ih =>
    obtain ⟨hname, hrecords⟩ := h
    obtain ⟨m, hm⟩ := hname.ends
    obtain ⟨l, hl⟩ := exists_walk_of_acyclic hname.acyclic
    have hstep (turns : Nat) (name : Buffer) (hturns : m ≤ turns) :
        ∃ r, (getQname datalen turns (BitVec.ofNat 16 off) name).value mem = some r ∧
          r.1 = endOf mem (BitVec.ofNat 16 off) l ∧
          (getQname datalen turns (BitVec.ofNat 16 off) name).Within (· < datalen) mem := by
      obtain ⟨r, hr⟩ := Option.ne_none_iff_exists'.mp (hm turns name hturns)
      exact ⟨r, hr, getQname_walk hl hr, (getQname_inside (hm turns name hturns)).mpr hname⟩
    by_cases hcomplete : Complete mem datalen (endOf mem (BitVec.ofNat 16 off) l)
    · obtain ⟨haddress, hrest⟩ := hrecords l hl _ rfl hcomplete
      obtain ⟨k, hk⟩ := ih hrest
      refine ⟨max m k, fun turns name hturns => ?_⟩
      obtain ⟨r, hr, hend, hreads⟩ := hstep turns name (by omega)
      rw [← hend] at hcomplete haddress hk
      obtain ⟨hvalue, hwithin⟩ := answer_next acount hr hcomplete
      obtain ⟨hsome, hinside⟩ := hk turns r.2 (by omega)
      rw [hvalue, hwithin]
      exact ⟨hsome, hreads, haddress, hinside⟩
    · refine ⟨m, fun turns name hturns => ?_⟩
      obtain ⟨r, hr, hend, hreads⟩ := hstep turns name hturns
      rw [← hend] at hcomplete
      obtain ⟨hvalue, hwithin⟩ := answer_stop acount hr hcomplete
      rw [hvalue, hwithin]
      exact ⟨Option.some_ne_none _, hreads⟩

theorem answerLoop_inBuffer {turns acount off : Nat} {name b : Buffer}
    (h : (answerLoop datalen turns acount off name).value mem = some b)
    (hname : InBuffer name) : InBuffer b := by
  induction acount generalizing off name with
  | zero =>
    cases h
    exact hname
  | succ acount ih =>
    obtain ⟨r, hq⟩ := answer_ends (by rw [h]; exact Option.some_ne_none b)
    have hr := getQname_inBuffer hq hname
    by_cases hcomplete : Complete mem datalen r.1
    · rw [(answer_next _ hq hcomplete).1] at h
      exact ih h hr
    · rw [(answer_stop _ hq hcomplete).1] at h
      cases h
      exact hr

/-! ## Messages -/

theorem strcpy_inBuffer {src : Buffer} {k : Nat} (hk : k < dnsQnameMax) (hzero : src.bytes k = 0)
    {turns i : Nat} {dst b : Buffer} (hi : i ≤ k) (h : strcpy src turns i dst = some b)
    (hdst : InBuffer dst) : InBuffer b := by
  induction turns generalizing i dst with
  | zero => cases h
  | succ turns ih =>
    rw [strcpy] at h
    split at h
    · cases h
      exact hdst.put (by omega) 0
    · rename_i hne
      have hik : i ≠ k := fun heq => hne (heq ▸ hzero)
      exact ih (by omega) h (hdst.put (by omega) _)

theorem strcpy_ends {src : Buffer} {k : Nat} (hzero : src.bytes k = 0) (turns : Nat) {i : Nat}
    (dst : Buffer) (hi : i ≤ k) (hturns : k < i + turns) : strcpy src turns i dst ≠ none := by
  induction turns generalizing i dst with
  | zero => omega
  | succ turns ih =>
    rw [strcpy]
    split
    · exact Option.some_ne_none _
    · rename_i hne
      have hik : i ≠ k := fun heq => hne (heq ▸ hzero)
      exact ih _ (by omega) (by omega)

theorem header_within (mem : Memory) (h : sizeofDnsHeader + 1 ≤ datalen) :
    (be16 4).Within (· < datalen) mem ∧ (be16 6).Within (· < datalen) mem ∧ 2 < datalen := by
  have hsize : sizeofDnsHeader = 12 := rfl
  simp only [Ip.within_be16]
  omega

theorem query_skipped (h : ¬ IsQuery mem datalen) (turns : Nat) (qname : Buffer) :
    (getDnsQuery datalen turns qname).value mem = some (none, qname) ∧
      (getDnsQuery datalen turns qname).Within (· < datalen) mem := by
  unfold getDnsQuery
  by_cases hlen : datalen < sizeofDnsHeader + 1
  · rw [if_pos hlen]
    exact ⟨rfl, within_pure _ _ _⟩
  · have hcond : ¬ (headerIs (mem 2) 0 ∧ 0 < (be16 4).value mem) :=
      fun hc => h ⟨Nat.not_lt.mp hlen, hc⟩
    obtain ⟨h4, -, h2⟩ := header_within mem (Nat.not_lt.mp hlen)
    rw [if_neg hlen, value_bind, value_bind, within_bind, within_bind, value_look, within_look,
      if_neg hcond]
    exact ⟨rfl, h4, h2, within_pure _ _ _⟩

theorem query_name (h : IsQuery mem datalen) (turns : Nat) (qname : Buffer) :
    ((getDnsQuery datalen turns qname).value mem = none ↔
      (getQname datalen turns (BitVec.ofNat 16 sizeofDnsHeader) qname).value mem = none) ∧
    ((getDnsQuery datalen turns qname).Within (· < datalen) mem ↔
      (getQname datalen turns (BitVec.ofNat 16 sizeofDnsHeader) qname).Within (· < datalen) mem) ∧
    ∀ r b, (getDnsQuery datalen turns qname).value mem = some (r, b) →
      ∃ i, (getQname datalen turns (BitVec.ofNat 16 sizeofDnsHeader) qname).value
        mem = some (i, b) := by
  obtain ⟨hsize, hcond⟩ := h
  obtain ⟨h4, -, h2⟩ := header_within mem hsize
  rw [getDnsQuery, if_neg (Nat.not_lt.mpr hsize), value_bind, value_bind, within_bind,
    within_bind, value_look, within_look, if_pos hcond, value_bind, within_bind]
  cases hq : (getQname datalen turns (BitVec.ofNat 16 sizeofDnsHeader) qname).value mem with
  | none => simp [h4, h2]
  | some i =>
    by_cases hi : 0 < i.1 ∧ i.1 + 4 = datalen
    · have hfields : (be16 i.1.toNat).Within (· < datalen) mem ∧
          (be16 (i.1.toNat + 2)).Within (· < datalen) mem := by
        simp only [Ip.within_be16]
        omega
      simp only [if_pos hi, value_bind, within_bind, value_pure, within_pure, h4, h2, hfields,
        Option.some.injEq]
      simp [Prod.ext_iff]
    · simp only [if_neg hi, value_pure, within_pure, h4, h2, Option.some.injEq]
      simp [Prod.ext_iff]

/-- A query is parsed safely exactly if its name is safe. -/
theorem querySafe_iff : QuerySafe mem datalen ↔
    (IsQuery mem datalen → NameSafe mem datalen (BitVec.ofNat 16 sizeofDnsHeader)) := by
  constructor
  · intro h hquery
    obtain ⟨turns, hend, hreads⟩ := h.ends ⟨fun _ => 0, []⟩
    obtain ⟨hvalue, hwithin, -⟩ := query_name hquery turns ⟨fun _ => 0, []⟩
    exact (getQname_inside fun hnone => hend (hvalue.mpr hnone)).mp (hwithin.mp hreads)
  · intro h
    by_cases hquery : IsQuery mem datalen
    · have hname := h hquery
      obtain ⟨enough, hends⟩ := hname.ends
      constructor
      · intro qname
        obtain ⟨hvalue, hwithin, -⟩ := query_name hquery enough qname
        have hend := hends enough qname (Nat.le_refl _)
        exact ⟨enough, fun hnone => hend (hvalue.mp hnone),
          hwithin.mpr ((getQname_inside hend).mpr hname)⟩
      · intro turns qname r b hvalue hqname
        obtain ⟨i, hi⟩ := (query_name hquery _ _).2.2 r b hvalue
        exact getQname_inBuffer hi hqname
    · constructor
      · intro qname
        obtain ⟨hvalue, hwithin⟩ := query_skipped hquery 0 qname
        exact ⟨0, by rw [hvalue]; exact Option.some_ne_none _, hwithin⟩
      · intro turns qname r b hvalue hqname
        rw [(query_skipped hquery turns qname).1] at hvalue
        cases hvalue
        exact hqname

theorem response_skipped (h : ¬ IsResponse mem datalen) (turns : Nat) (name qname : Buffer) :
    (parseDnsResponse datalen turns name qname).value mem = some (name, qname) ∧
      (parseDnsResponse datalen turns name qname).Within (· < datalen) mem := by
  unfold parseDnsResponse
  by_cases hlen : datalen < sizeofDnsHeader + 1
  · rw [if_pos hlen]
    exact ⟨rfl, within_pure _ _ _⟩
  · have hcond : ¬ (headerIs (mem 2) 1 ∧ 0 < (be16 4).value mem ∧ 0 < (be16 6).value mem) :=
      fun hc => h ⟨Nat.not_lt.mp hlen, hc⟩
    obtain ⟨h4, h6, h2⟩ := header_within mem (Nat.not_lt.mp hlen)
    rw [if_neg hlen, value_bind, value_bind, value_bind, within_bind, within_bind, within_bind,
      value_look, within_look, if_neg hcond]
    exact ⟨rfl, h4, h6, h2, within_pure _ _ _⟩

section

variable {turns : Nat} {name qname : Buffer}

theorem response_none (h : IsResponse mem datalen)
    (hq : (getQname datalen turns (BitVec.ofNat 16 sizeofDnsHeader) name).value mem = none) :
    (parseDnsResponse datalen turns name qname).value mem = none := by
  obtain ⟨hsize, hcond⟩ := h
  rw [parseDnsResponse, if_neg (Nat.not_lt.mpr hsize), value_bind, value_bind, value_bind,
    value_look, if_pos hcond, value_bind, hq]
  rfl

/-- A question that does not fit ends the parser. -/
theorem response_stop (qname : Buffer) (h : IsResponse mem datalen) {r : Int × Buffer}
    (hq : (getQname datalen turns (BitVec.ofNat 16 sizeofDnsHeader) name).value mem = some r)
    (hr : ¬ (0 < r.1 ∧ r.1 + 4 ≤ datalen)) :
    (parseDnsResponse datalen turns name qname).value mem = some (r.2, qname) ∧
      ((parseDnsResponse datalen turns name qname).Within (· < datalen) mem ↔
        (getQname datalen turns (BitVec.ofNat 16 sizeofDnsHeader) name).Within
          (· < datalen) mem) := by
  obtain ⟨hsize, hcond⟩ := h
  obtain ⟨h4, h6, h2⟩ := header_within mem hsize
  rw [parseDnsResponse, if_neg (Nat.not_lt.mpr hsize), value_bind, value_bind, value_bind,
    within_bind, within_bind, within_bind, value_look, within_look, if_pos hcond, value_bind,
    within_bind, hq]
  simp only [if_neg hr, value_pure, within_pure, h4, h6, h2, and_true, true_and]

/-- Otherwise the question is copied and the answers are read behind it. -/
theorem response_next (h : IsResponse mem datalen) {r : Int × Buffer}
    (hq : (getQname datalen turns (BitVec.ofNat 16 sizeofDnsHeader) name).value mem = some r)
    (hr : 0 < r.1 ∧ r.1 + 4 ≤ datalen) {copied : Buffer}
    (hcopy : strcpy r.2 turns 0 qname = some copied) :
    let rest := answerLoop datalen turns ((be16 6).value mem) (r.1.toNat + 4) r.2
    (parseDnsResponse datalen turns name qname).value mem =
      (rest.value mem).map (fun name => (name, copied)) ∧
      ((parseDnsResponse datalen turns name qname).Within (· < datalen) mem ↔
        (getQname datalen turns (BitVec.ofNat 16 sizeofDnsHeader) name).Within (· < datalen) mem ∧
          rest.Within (· < datalen) mem) := by
  obtain ⟨hsize, hcond⟩ := h
  obtain ⟨h4, h6, h2⟩ := header_within mem hsize
  have hfields : (be16 r.1.toNat).Within (· < datalen) mem ∧
      (be16 (r.1.toNat + 2)).Within (· < datalen) mem := by
    simp only [Ip.within_be16]
    omega
  rw [parseDnsResponse, if_neg (Nat.not_lt.mpr hsize), value_bind, value_bind, value_bind,
    within_bind, within_bind, within_bind, value_look, within_look, if_pos hcond, value_bind,
    within_bind, hq]
  simp only [if_pos hr, hcopy, value_bind, within_bind, value_pure, within_pure, h4, h6, h2,
    hfields, and_true, true_and]

theorem response_stuck (h : IsResponse mem datalen) {r : Int × Buffer}
    (hq : (getQname datalen turns (BitVec.ofNat 16 sizeofDnsHeader) name).value mem = some r)
    (hr : 0 < r.1 ∧ r.1 + 4 ≤ datalen) (hcopy : strcpy r.2 turns 0 qname = none) :
    (parseDnsResponse datalen turns name qname).value mem = none := by
  obtain ⟨hsize, hcond⟩ := h
  rw [parseDnsResponse, if_neg (Nat.not_lt.mpr hsize), value_bind, value_bind, value_bind,
    value_look, if_pos hcond, value_bind, hq]
  simp only [if_pos hr, hcopy, value_pure]

end

theorem message_of_run (h : IsResponse mem datalen) {turns : Nat} {name qname : Buffer}
    (hend : (parseDnsResponse datalen turns name qname).value mem ≠ none)
    (hreads : (parseDnsResponse datalen turns name qname).Within (· < datalen) mem) :
    MessageSafe mem datalen := by
  cases hq : (getQname datalen turns (BitVec.ofNat 16 sizeofDnsHeader) name).value mem with
  | none => exact absurd (response_none h hq) hend
  | some r =>
    have hqend :
        (getQname datalen turns (BitVec.ofNat 16 sizeofDnsHeader) name).value mem ≠ none := by
      rw [hq]
      exact Option.some_ne_none r
    by_cases hr : 0 < r.1 ∧ r.1 + 4 ≤ datalen
    · cases hcopy : strcpy r.2 turns 0 qname with
      | none => exact absurd (response_stuck h hq hr hcopy) hend
      | some copied =>
        obtain ⟨hvalue, hwithin⟩ := response_next h hq hr hcopy
        obtain ⟨hname, hrest⟩ := hwithin.mp hreads
        refine ⟨(getQname_inside hqend).mp hname, fun l hl r' hr' _ _ => ?_⟩
        rw [← getQname_walk hl hq] at hr'
        subst hr'
        refine records_of_run (fun hnone => hend ?_) hrest
        rw [hvalue, hnone]
        rfl
    · refine ⟨(getQname_inside hqend).mp ((response_stop _ h hq hr).2.mp hreads),
        fun l hl r' hr' hpos hlen => ?_⟩
      rw [← getQname_walk hl hq] at hr'
      subst hr'
      exact absurd ⟨hpos, hlen⟩ hr

theorem run_of_message (h : IsResponse mem datalen) (hsafe : MessageSafe mem datalen) :
    ∃ enough, ∀ turns name qname, enough ≤ turns →
    (parseDnsResponse datalen turns name qname).value mem ≠ none ∧
      (parseDnsResponse datalen turns name qname).Within (· < datalen) mem := by
  obtain ⟨m, hm⟩ := hsafe.question.ends
  obtain ⟨l, hl⟩ := exists_walk_of_acyclic hsafe.question.acyclic
  by_cases hfits : 0 < endOf mem (BitVec.ofNat 16 sizeofDnsHeader) l ∧
      endOf mem (BitVec.ofNat 16 sizeofDnsHeader) l + 4 ≤ datalen
  · obtain ⟨k, hk⟩ := run_of_records (hsafe.answers l hl _ rfl hfits.1 hfits.2)
    -- enough turns also for `strcpy`
    refine ⟨max m (max k (dnsQnameMax + 1)), fun turns name qname hturns => ?_⟩
    have hend := hm turns name (by omega)
    obtain ⟨r, hr⟩ := Option.ne_none_iff_exists'.mp hend
    have hrend := getQname_walk hl hr
    rw [← hrend] at hfits hk
    obtain ⟨i, hi, hzero⟩ := getQname_terminated hr hfits.1
    obtain ⟨copied, hcopy⟩ := Option.ne_none_iff_exists'.mp
      (strcpy_ends hzero turns qname (Nat.zero_le i) (by omega))
    obtain ⟨hvalue, hwithin⟩ := response_next h hr hfits hcopy
    obtain ⟨hsome, hreads⟩ := hk turns r.2 (by omega)
    refine ⟨?_, hwithin.mpr ⟨(getQname_inside hend).mpr hsafe.question, hreads⟩⟩
    rw [hvalue]
    exact fun hnone => hsome (Option.map_eq_none_iff.mp hnone)
  · refine ⟨m, fun turns name qname hturns => ?_⟩
    have hend := hm turns name hturns
    obtain ⟨r, hr⟩ := Option.ne_none_iff_exists'.mp hend
    rw [← getQname_walk hl hr] at hfits
    obtain ⟨hvalue, hwithin⟩ := response_stop qname h hr hfits
    refine ⟨?_, hwithin.mpr ((getQname_inside hend).mpr hsafe.question)⟩
    rw [hvalue]
    exact Option.some_ne_none _

theorem response_inBuffer {turns : Nat} {name qname : Buffer} {b : Buffer × Buffer}
    (h : (parseDnsResponse datalen turns name qname).value mem = some b) (hname : InBuffer name)
    (hqname : InBuffer qname) : InBuffer b.1 ∧ InBuffer b.2 := by
  by_cases hresponse : IsResponse mem datalen
  · cases hq : (getQname datalen turns (BitVec.ofNat 16 sizeofDnsHeader) name).value mem with
    | none =>
      rw [response_none hresponse hq] at h
      cases h
    | some r =>
      have hin := getQname_inBuffer hq hname
      by_cases hr : 0 < r.1 ∧ r.1 + 4 ≤ datalen
      · cases hcopy : strcpy r.2 turns 0 qname with
        | none =>
          rw [response_stuck hresponse hq hr hcopy] at h
          cases h
        | some copied =>
          rw [(response_next hresponse hq hr hcopy).1] at h
          obtain ⟨name', hname', rfl⟩ := Option.map_eq_some_iff.mp h
          obtain ⟨k, hk, hzero⟩ := getQname_terminated hq hr.1
          exact ⟨answerLoop_inBuffer hname' hin,
            strcpy_inBuffer hk hzero (Nat.zero_le k) hcopy hqname⟩
      · rw [(response_stop _ hresponse hq hr).1] at h
        cases h
        exact ⟨hin, hqname⟩
  · rw [(response_skipped hresponse turns name qname).1] at h
    cases h
    exact ⟨hname, hqname⟩

theorem responseSafe_iff :
    ResponseSafe mem datalen ↔ (IsResponse mem datalen → MessageSafe mem datalen) := by
  constructor
  · intro h hresponse
    obtain ⟨turns, hend, hreads⟩ := h.ends ⟨fun _ => 0, []⟩ ⟨fun _ => 0, []⟩
    exact message_of_run hresponse hend hreads
  · intro h
    refine ⟨fun name qname => ?_, fun turns name qname b hvalue hname hqname =>
      response_inBuffer hvalue hname hqname⟩
    by_cases hresponse : IsResponse mem datalen
    · obtain ⟨enough, hends⟩ := run_of_message hresponse (h hresponse)
      exact ⟨enough, hends enough name qname (Nat.le_refl _)⟩
    · obtain ⟨hvalue, hwithin⟩ := response_skipped hresponse 0 name qname
      exact ⟨0, by rw [hvalue]; exact Option.some_ne_none _, hwithin⟩

end

/-- Queries and responses are parsed safely exactly if the names and addresses that the parser
comes to are safe. -/
theorem dns_safe_iff (data : Bytes) (after : Memory) :
    (QuerySafe (memoryOf data after) data.length ↔
      (IsQuery (memoryOf data after) data.length →
        NameSafe (memoryOf data after) data.length (BitVec.ofNat 16 sizeofDnsHeader))) ∧
    (ResponseSafe (memoryOf data after) data.length ↔
      (IsResponse (memoryOf data after) data.length →
        MessageSafe (memoryOf data after) data.length)) :=
  ⟨querySafe_iff, responseSafe_iff⟩

/-- A query whose name is a pointer to itself. -/
def selfPointing : Bytes := [0, 0, 1, 0, 0, 1, 0, 0, 0, 0, 0, 0, 0xC0, 12, 0, 1, 0, 1]

/-- A response that announces an answer and ends behind its question. -/
def cutShort : Bytes := [0, 0, 0x80, 0, 0, 1, 0, 1, 0, 0, 0, 0, 1, 97, 0, 0, 1, 0, 1]

/-- The pointer is followed for ever, and the answer is looked for behind the message. -/
theorem dns_not_safe :
    ¬ QuerySafe (memoryOf selfPointing fun _ => 0) selfPointing.length ∧
      ¬ ResponseSafe (memoryOf cutShort fun _ => 0) cutShort.length := by
  constructor
  · rw [querySafe_iff]
    intro h
    have hname := h ⟨by decide +kernel, by decide +kernel, by decide +kernel⟩
    exact hname.acyclic _ .refl (.single (by unfold Step; decide +kernel))
  · rw [responseSafe_iff]
    intro h
    have hmessage := h ⟨by decide +kernel, by decide +kernel, by decide +kernel, by decide +kernel⟩
    have hwalk :
        Walk (next (memoryOf cutShort fun _ => 0) cutShort.length) (12, 0) [(12, 0), (14, 2)] :=
      .step (by decide +kernel) (.stop (by decide +kernel))
    have hrecords := hmessage.answers _ hwalk 15 (by decide +kernel) (by decide) (by decide +kernel)
    have hcount : (be16 6).value (memoryOf cutShort fun _ => 0) = 1 := by decide +kernel
    rw [hcount] at hrecords
    exact absurd (hrecords.1.inside _ .refl).1 (by decide +kernel)

end PdaNetClient.Dns
