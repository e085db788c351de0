import PdaNetClient.Numbered
import PdaNetClient.TcpAccounting

/-!
# The client's stream to the remote socket

A session that is not relayed through the proxy. The queue always agrees with the
client's stream, and the sequence number counts what was accepted. The
exception is data on the SYN: it is queued under the number of the SYN itself, one
too low, and a session that is closed before its handshake forwards it there.
-/
namespace PdaNetClient.Tcp

open Http Runs Numbered

set_option autoImplicit false

/-- The bytes the remote socket took in one send of the forward loop. -/
@[simp] def Out.accepted : Out → Bytes
  | .forward _ data patch (some n) => (patch.apply data).take n
  | _ => []

def accepted (tr : List Out) : Bytes := tr.flatMap Out.accepted

@[simp] theorem accepted_nil : accepted [] = [] := rfl
@[simp] theorem accepted_cons (o : Out) (tr : List Out) :
    accepted (o :: tr) = o.accepted ++ accepted tr :=
  rfl
@[simp] theorem accepted_append (a b : List Out) : accepted (a ++ b) = accepted a ++ accepted b :=
  List.flatMap_append

/-- The data of a segment agrees with the stream `S` that starts behind the SYN. -/
def Agrees (S : Bytes) (start : U32) (p : Packet) : Prop :=
  p.datalen ≠ 0 →
    if p.syn then p.seq = start ∧ p.data.bytes <+: S
    else Carries (start + 1) S p.seq p.data.bytes

/-- What the client sends agrees with the stream, and every send takes a count. -/
def Honest (S : Bytes) (start : U32) : Input → Prop
  | .packet _ p => Agrees S start p
  | .socket e => ∀ i, ∃ n, e.sends i = .ok n
  | _ => True

/-- Data queued under the number of the SYN: it is one position too low. -/
def OnSyn (S : Bytes) (start seq : U32) (data : Bytes) : Prop := seq = start ∧ data <+: S

def Queued (S : Bytes) (start : U32) (q : List Segment) : Prop :=
  ∀ g ∈ q, OnSyn S start g.seq g.data.bytes ∨ Carries (start + 1) S g.seq g.data.bytes

/-- What the acknowledgement number and the queue say after `a` was accepted.
`synData` and `stuck` are the sessions closed before their handshake, while and after
the data on the SYN is forwarded; nothing is forwarded any more in `ended`. -/
inductive Mode (start seq : U32) (st : State) (q : List Segment) (socket : Int)
    (a : Bytes) : Prop where
  | fresh (hst : st = .listen) (hseq : seq = start) (ha : a = []) (hsent : ∀ g ∈ q, g.sent = 0)
  | counted (hst : st ≠ .listen) (hfin : st ≠ .finWait1)
      (hseq : seq = start + 1 + BitVec.ofNat 32 a.length)
      (hsyn : ∀ g ∈ q, g.seq = start → g.sent = 0)
  | ended (hend : socket < 0 ∨ q = [] ∧ (st.closed ∨ st = .closeWait))
  | synData (hst : st.closed) (g : Segment) (rest : List Segment) (hq : q = g :: rest)
      (hg : g.seq = start)
      (hseq : seq = start + BitVec.ofNat 32 g.sent) (ha : a.length = g.sent)
  | stuck (hst : st.closed) (hhead : ∀ g ∈ q.head?, g.seq + BitVec.ofNat 32 g.sent ≠ seq)

/-- The invariant, over the fields it reads. -/
structure UpstreamAt (S : Bytes) (start : U32) (dest : Nat) (connectSent : ConnectSent)
    (remoteStart remoteSeq : U32) (st : State) (q : List Segment) (socket : Int)
    (a : Bytes) : Prop where
  port : ¬ proxied dest
  direct : connectSent = .notSent
  isn : remoteStart = start
  queued : Queued S start q
  taken : a <+: S
  mode : Mode start remoteSeq st q socket a

abbrev Upstream (S : Bytes) (start : U32) (s : Session) (a : Bytes) : Prop :=
  UpstreamAt S start s.dest s.connectSent s.remoteStart s.remoteSeq s.state s.forward s.socket a

section

variable {S : Bytes} {start : U32} {s : Session} {a : Bytes}

/-- A segment numbered `start` holds data on the SYN: the stream is too short to
reach its own first number again. -/
theorem Queued.onSyn {q : List Segment} (h : Queued S start q) (hS : S.length + 2 < 2 ^ 32)
    {g : Segment} (hg : g ∈ q) (hseq : g.seq = start) : g.data.bytes <+: S := by
  rcases h g hg with hsyn | ⟨i, hi, hlen, -⟩
  · exact hsyn.2
  · exact absurd (hseq.symm.trans hi) (ne_counted start (by omega))

theorem Upstream.close (h : Upstream S start s a) {st : State} (hst : st.closed) :
    Mode start s.remoteSeq st s.forward s.socket a := by
  have hne : st ≠ .listen ∧ st ≠ .finWait1 := by rcases hst with rfl | rfl <;> simp
  cases h.mode with
  | fresh _ hseq ha hsent =>
    cases hq : s.forward with
    | nil => exact .stuck hst (by simp)
    | cons g q =>
      have hzero := hsent g (by simp [hq])
      by_cases hg : g.seq = start
      · exact .synData hst g q rfl hg (by simp [hseq, hzero]) (by simp [ha, hzero])
      · exact .stuck hst (by simpa [hzero, hseq] using hg)
  | counted _ _ hseq hsyn => exact .counted hne.1 hne.2 hseq hsyn
  | ended hend => exact .ended (hend.imp_right fun h => ⟨h.1, .inl hst⟩)
  | synData _ g q hq hg hseq ha => exact .synData hst g q hq hg hseq ha
  | stuck _ hhead => exact .stuck hst hhead

theorem Upstream.closed (h : Upstream S start s a) (st : State) (hst : st.closed) :
    Upstream S start { s with state := st } a :=
  ⟨h.port, h.direct, h.isn, h.queued, h.taken, h.close hst⟩

/-- The SYN is counted, by the handshake or by a reset. -/
theorem Upstream.countSyn (h : Upstream S start s a) (hlisten : s.state = .listen) (st : State)
    (hst : st ≠ .listen) (hfin : st ≠ .finWait1) :
    Mode start (s.remoteSeq + 1) st s.forward s.socket a := by
  cases h.mode with
  | fresh _ hseq ha hsent => exact .counted hst hfin (by simp [hseq, ha]) fun g hg _ => hsent g hg
  | counted hne _ _ _ => exact absurd hlisten hne
  | ended hend =>
    refine .ended (.inl (hend.resolve_right fun h => ?_))
    simp [hlisten] at h
  | synData hcl => simp [hlisten] at hcl
  | stuck hcl => simp [hlisten] at hcl

theorem Upstream.writeRst (h : Upstream S start s a) (ok : Bool) :
    Upstream S start (writeRst ok s).1 a := by
  refine writeRst_cases ok s (fun hl => ?_) (fun st hl hst _ => ?_)
  · exact ⟨h.port, h.direct, h.isn, h.queued, h.taken, h.countSyn hl .closing (by simp) (by simp)⟩
  · exact h.closed st hst

theorem Agrees.carries {p : Packet} (hp : Agrees S start p) (hlen : p.datalen ≠ 0) :
    OnSyn S start p.seq p.data.bytes ∨ Carries (start + 1) S p.seq p.data.bytes := by
  have hag := hp hlen
  split at hag
  · exact .inl hag
  · exact .inr hag

/-- The packet's data replaces data of the same number. -/
theorem Queued.insert {q : List Segment} (hq : Queued S start q) {p : Packet}
    (hdata : OnSyn S start p.seq p.data.bytes ∨ Carries (start + 1) S p.seq p.data.bytes) :
    Queued S start (insertSegment p q) := by
  apply forall_insertSegment hq hdata
  intro g _ hseq _
  rw [seq_replace, hseq]
  exact hdata

/-- Queueing in an open session, on an open socket. -/
theorem Upstream.queue (h : Upstream S start s a) (p : Packet) (hp : Agrees S start p)
    (hlen : p.datalen ≠ 0) (hsock : 0 ≤ s.socket) (hopen : ¬ s.state.closed)
    (hst : s.state ≠ .closeWait) :
    Upstream S start (queueTcp p s) a := by
  have hdata := hp.carries hlen
  rcases queueTcp_cases p s with hq | hq
  · rwa [hq]
  · rw [hq]
    refine ⟨h.port, h.direct, h.isn, h.queued.insert hdata, h.taken, ?_⟩
    cases h.mode with
    | fresh hl hseq ha hsent =>
      apply Mode.fresh hl hseq ha
      exact forall_insertSegment hsent rfl fun _ _ _ hg => hg
    | counted hne hfin hseq hsyn =>
      apply Mode.counted hne hfin hseq
      exact forall_insertSegment hsyn (fun _ => rfl) fun _ _ _ hg => hg
    | ended hend =>
      rcases hend with hneg | ⟨-, hcl | hcw⟩
      · omega
      · exact absurd hcl hopen
      · exact absurd hcw hst
    | synData hcl => exact absurd hcl hopen
    | stuck hcl => exact absurd hcl hopen

/-! ## The forward loop -/

/-- The segment behind the data of the SYN does not follow it by number. -/
def Apart (start : U32) (s : Session) : Prop :=
  ∀ g q, s.forward = g :: q → g.seq = start → g.seq + BitVec.ofNat 32 g.sent = s.remoteSeq →
    ∀ g₂ ∈ q.head?, g₂.seq + BitVec.ofNat 32 g₂.sent ≠ g.seq + BitVec.ofNat 32 g.len

/-- A pass marks exactly what was accepted, when the send takes a count and nothing
is rewritten. -/
theorem pass_accepts (res : SendResult) (after : Memory) (g : Segment) (hport : ¬ proxied s.dest)
    (hsock : 0 ≤ s.socket) (hres : ∃ m, res = .ok m) :
    (Out.forward s.state g.rest (patchHead s.dest after g.rest)
        (headResult res after s g).count).accepted =
      g.rest.take (marked (headResult res after s g) (g.len - g.sent)) := by
  obtain ⟨m, rfl⟩ := hres
  have h80 : s.dest ≠ 80 := fun h => hport (.inl h)
  have hneg : ¬ s.socket < 0 := by omega
  have hpatch : patchHead s.dest after g.rest = .unchanged := by simp [patchHead, h80]
  simp only [headResult, hpatch, sockSend, if_neg hneg, apply_unchanged, SendResult.count, marked,
    Out.accepted, Segment.length_rest]
  rw [Nat.min_eq_left (Nat.min_le_right _ _)]

theorem mem_passed {g g' : Segment} {q : List Segment} {n : Nat} {hn : n ≤ g.len - g.sent}
    (hq : s.forward = g :: q) (h : g' ∈ (passed s g q n hn).forward) :
    g' ∈ s.forward ∨ g' = g.advance n hn := by
  simp only [passed] at h
  split at h
  · exact .inl (by simp [hq, h])
  · rcases List.mem_cons.mp h with rfl | h
    · exact .inr rfl
    · exact .inl (by simp [hq, h])

theorem Queued.passed (h : Queued S start s.forward) {g : Segment} {q : List Segment} {n : Nat}
    {hn : n ≤ g.len - g.sent} (hq : s.forward = g :: q) :
    Queued S start (passed s g q n hn).forward := by
  intro g' hg'
  rcases mem_passed hq hg' with hg' | rfl
  · exact h g' hg'
  · exact h g (by simp [hq])

theorem length_taken (g : Segment) {n : Nat} (hn : n ≤ g.len - g.sent) :
    (g.rest.take n).length = n := by
  rw [List.length_take, Segment.length_rest]
  exact Nat.min_eq_left hn

section pass

variable {g : Segment} {q : List Segment} {n : Nat} (hn : n ≤ g.len - g.sent)

/-- Behind the SYN the head is a piece of the stream, and what is accepted of it is the next. -/
theorem counted_passed (h : Queued S start s.forward) (hS : S.length + 2 < 2 ^ 32) (ha : a <+: S)
    (hcount : s.remoteSeq = start + 1 + BitVec.ofNat 32 a.length)
    (hsyn : ∀ g ∈ s.forward, g.seq = start → g.sent = 0) (hq : s.forward = g :: q)
    (hseq : g.seq + BitVec.ofNat 32 g.sent = s.remoteSeq) :
    a ++ g.rest.take n <+: S ∧
      (passed s g q n hn).remoteSeq = start + 1 + BitVec.ofNat 32 (a ++ g.rest.take n).length ∧
      ∀ g' ∈ (passed s g q n hn).forward, g'.seq = start → g'.sent = 0 := by
  have hmem : g ∈ s.forward := by simp [hq]
  have hlen := ha.length_le
  have hne : g.seq ≠ start := by
    intro hg
    have hzero := hsyn g hmem hg
    exact absurd (by simpa [hg, hzero, hcount] using hseq)
      (ne_counted start (k := a.length) (by omega))
  have hcarry : Carries (start + 1) S (start + 1 + BitVec.ofNat 32 a.length) g.rest := by
    have hg := (h g hmem).resolve_left fun hg => hne hg.1
    have hdrop := hg.drop g.sent_le_len
    rwa [hseq, hcount] at hdrop
  refine ⟨hcarry.extends (by omega) ha n, ?_, fun g' hg' hstart => ?_⟩
  · rw [passed_remoteSeq s g q n hn hseq, hcount, List.length_append, length_taken g hn,
      BitVec.ofNat_add, BitVec.add_assoc]
  · rcases mem_passed hq hg' with hg' | rfl
    · exact hsyn g' hg' hstart
    · exact absurd hstart hne

theorem Upstream.pass_counted (h : Upstream S start s a) (hS : S.length + 2 < 2 ^ 32)
    (hst : s.state ≠ .listen) (hfin : s.state ≠ .finWait1)
    (hcount : s.remoteSeq = start + 1 + BitVec.ofNat 32 a.length)
    (hsyn : ∀ g ∈ s.forward, g.seq = start → g.sent = 0) (hq : s.forward = g :: q)
    (hseq : g.seq + BitVec.ofNat 32 g.sent = s.remoteSeq) :
    Upstream S start (passed s g q n hn) (a ++ g.rest.take n) ∧
    Apart start (passed s g q n hn) := by
  obtain ⟨htaken, hcount', hsyn'⟩ := counted_passed hn h.queued hS h.taken hcount hsyn hq hseq
  refine ⟨⟨h.port, h.direct, h.isn, h.queued.passed hq, htaken, .counted hst hfin hcount' hsyn'⟩,
    ?_⟩
  intro g₁ q₁ hq₁ hstart hmatch
  have hzero := hsyn' g₁ (by simp [hq₁]) hstart
  have hbound := htaken.length_le
  rw [hcount', hstart, hzero] at hmatch
  exact absurd (by simpa using hmatch)
    (ne_counted start (k := (a ++ g.rest.take n).length) (by omega))

/-- The data on the SYN is sent to its end, and nothing behind it. -/
theorem Upstream.pass_synData (h : Upstream S start s a) (hS : S.length + 2 < 2 ^ 32)
    (hclosed : s.state.closed) (hapart : Apart start s) (hg : g.seq = start)
    (ha : a.length = g.sent) (hq : s.forward = g :: q)
    (hseq : g.seq + BitVec.ofNat 32 g.sent = s.remoteSeq) :
    Upstream S start (passed s g q n hn) (a ++ g.rest.take n) ∧
    Apart start (passed s g q n hn) := by
  have hdata := h.queued.onSyn hS (show g ∈ s.forward by simp [hq]) hg
  have htaken : a ++ g.rest.take n <+: S := by
    refine prefix_append h.taken ((List.take_prefix n g.rest).trans ?_)
    rw [ha]
    exact hdata.drop g.sent
  have hqueued : Queued S start (passed s g q n hn).forward := h.queued.passed hq
  have hstep := hapart g q hq hg hseq
  by_cases hfull : g.len = g.sent + n
  · have hfwd : (passed s g q n hn).forward = q := by simp [passed, hfull]
    have hhead : ∀ g₂ ∈ q.head?, g₂.seq + BitVec.ofNat 32 g₂.sent ≠
        (passed s g q n hn).remoteSeq := by
      simpa [passed, hfull] using hstep
    refine ⟨⟨h.port, h.direct, h.isn, hqueued, htaken, .stuck hclosed (by rwa [hfwd])⟩, ?_⟩
    intro g₁ q₁ hq₁ _ hmatch
    rw [hfwd] at hq₁
    exact absurd hmatch (hhead g₁ (by simp [hq₁]))
  · have hfwd : (passed s g q n hn).forward = g.advance n hn :: q := by simp [passed, hfull]
    refine ⟨⟨h.port, h.direct, h.isn, hqueued, htaken, ?_⟩, ?_⟩
    · refine .synData hclosed _ _ hfwd hg ?_ ?_
      · simp [passed, Segment.advance, hg]
      · rw [List.length_append, length_taken g hn, ha]
        rfl
    · intro g₁ q₁ hq₁ _ _
      rw [hfwd] at hq₁
      injection hq₁ with h1 h2
      subst h1 h2
      exact hstep

theorem Upstream.pass (h : Upstream S start s a) (hS : S.length + 2 < 2 ^ 32) (hsock : 0 ≤ s.socket)
    (hst : s.state ≠ .listen) (hapart : Apart start s) (hq : s.forward = g :: q)
    (hseq : g.seq + BitVec.ofNat 32 g.sent = s.remoteSeq) :
    Upstream S start (passed s g q n hn) (a ++ g.rest.take n) ∧
    Apart start (passed s g q n hn) := by
  cases h.mode with
  | fresh hl => exact absurd hl hst
  | counted _ hfin hcount hsyn => exact h.pass_counted hn hS hst hfin hcount hsyn hq hseq
  | ended hend =>
    rcases hend with hneg | ⟨hnil, -⟩
    · omega
    · simp [hq] at hnil
  | synData hclosed g₀ q₀ hq₀ hg hcount ha =>
    obtain ⟨rfl, rfl⟩ : g = g₀ ∧ q = q₀ := by
      rw [hq] at hq₀
      injection hq₀ with h1 h2
      exact ⟨h1, h2⟩
    exact h.pass_synData hn hS hclosed hapart hg ha hq hseq
  | stuck _ hhead => exact absurd hseq (hhead g (by simp [hq]))

end pass

/-- A writable event outside LISTEN that forwards data of the SYN finds no segment
right behind it. -/
def SynDataApart (s : Session) : Input → Prop
  | .socket e => s.state ≠ .listen → e.ev.err = false → e.ev.out = true →
      ∀ g ∈ s.forward.head?, g.seq = s.remoteStart →
        canForward s g (receiveBuffer s.socket e.sndbuf) →
        ∀ g₂ ∈ s.forward.tail.head?, g₂.seq + BitVec.ofNat 32 g₂.sent ≠
          g.seq + BitVec.ofNat 32 g.len
  | _ => True

instance (s : Session) : (i : Input) → Decidable (SynDataApart s i)
  | .packet _ _ | .socket _ | .monitor _ | .check _ => by unfold SynDataApart; infer_instance

theorem forwardData_upstream (abi : Abi) (e : SocketEnv) (tr : List Out)
    (hS : S.length + 2 < 2 ^ 32) (hst : s.state ≠ .listen) (herr : e.ev.err = false)
    (hok : ∀ i, ∃ n, e.sends i = .ok n) (hi : SynDataApart s (.socket e))
    (h : Upstream S start s (accepted tr)) :
    (forwardData abi e s).1.state = s.state ∧
      Upstream S start (forwardData abi e s).1 (accepted (tr ++ (forwardData abi e s).2.2)) := by
  by_cases hsock : s.socket < 0
  · rw [forwardData_no_socket abi e s hsock]
    exact ⟨rfl, by simpa using h⟩
  · by_cases hcan : ∀ g q, s.forward = g :: q → e.ev.out →
        ¬ canForward s g (receiveBuffer s.socket e.sndbuf)
    · rw [forwardData_idle abi e s hcan]
      exact ⟨rfl, by simpa using h⟩
    · have hapart : Apart start s := by
        push Not at hcan
        obtain ⟨g, q, hq, hout, hcan⟩ := hcan
        intro g₁ q₁ hq₁ hg₁ _
        rw [hq] at hq₁
        injection hq₁ with h1 h2
        subst h1 h2
        have hi := hi hst herr hout g (by simp [hq]) (by rw [hg₁, h.isn]) hcan
        simpa [hq] using hi
      have hrule := forwardData_rule
        (fun _ t tr => t.state = s.state ∧ 0 ≤ t.socket ∧ Upstream S start t (accepted tr) ∧
          Apart start t) abi e s tr
        (fun _ t tr ht => by simpa using ht)
        (fun i _ t tr g q n hn ht _ hq hseq hmark => by
          obtain ⟨hstate, hopen, hup, hap⟩ := ht
          have hacc := pass_accepts (e.sends i) (e.after i) g hup.port hopen (hok i)
          obtain ⟨hup', hap'⟩ := hup.pass hn hS hopen (by rwa [hstate]) hap hq hseq
          refine ⟨hstate, hopen, ?_, hap'⟩
          rw [accepted_append, accepted_cons, accepted_nil, List.append_nil, hacc, ← hmark]
          exact hup')
        ⟨rfl, by omega, h, hapart⟩
      exact ⟨hrule.1, hrule.2.2.1⟩

/-! ## The other phases -/

theorem acked_upstream (e : SocketEnv) (t : Session) (h : Upstream S start t a) :
    Upstream S start (acked e t) a := by
  unfold acked
  split
  · exact h
  · exact h.closed _ closed_closing

theorem ackForwarded_upstream (e : SocketEnv) (fwd : Bool) (h : Upstream S start s a) :
    Upstream S start (ackForwarded e fwd s).1 a ∧ accepted (ackForwarded e fwd s).2 = [] := by
  refine ackForwarded_cases e fwd s ?_ ?_ ?_
  · exact fun _ => ⟨h, rfl⟩
  · rintro t rfl _ hq hst
    exact ⟨acked_upstream e _ { h with mode := .ended (.inr ⟨hq, .inr hst⟩) }, rfl⟩
  · rintro t rfl _ _
    exact ⟨acked_upstream e _ h, rfl⟩

theorem readSocket_upstream (e : SocketEnv) (h : Upstream S start s a) :
    Upstream S start (readSocket e s).1 a ∧ accepted (readSocket e s).2 = [] := by
  refine readSocket_cases e s ⟨h, rfl⟩ ?_ ?_ ?_ ?_ ?_
  · exact fun _ _ => ⟨h, rfl⟩
  · exact fun _ _ => ⟨h.closed _ closed_closing, rfl⟩
  · intro asked hst
    refine handleEof_cases e { s with time := e.now } hst ?_ ?_ ?_
    · exact fun _ => ⟨{ h with mode := .ended (.inl (by simp)) }, rfl⟩
    · exact fun _ _ => ⟨{ h with mode := .ended (.inl (by simp)) }, rfl⟩
    · exact fun _ _ => ⟨{ h with mode := .ended (.inl (by simp)) }, rfl⟩
  · rintro asked bytes t _ _ _ rfl _
    exact ⟨h, rfl⟩
  · rintro asked bytes t _ _ rfl _
    exact ⟨h.closed _ closed_closing, rfl⟩

/-- Only a session that counted its SYN, or forwards nothing more, is open and past LISTEN. -/
theorem Upstream.open_cases (h : Upstream S start s a) (hopen : ¬ s.state.closed)
    (hst : s.state ≠ .listen) :
    (s.state ≠ .finWait1 ∧ s.remoteSeq = start + 1 + BitVec.ofNat 32 a.length ∧
      ∀ g ∈ s.forward, g.seq = start → g.sent = 0) ∨
    s.socket < 0 ∨ s.forward = [] ∧ s.state = .closeWait := by
  cases h.mode with
  | fresh hl => exact absurd hl hst
  | counted _ hfin hseq hsyn => exact .inl ⟨hfin, hseq, hsyn⟩
  | ended hend => exact .inr (hend.imp_right fun h => ⟨h.1, h.2.resolve_left hopen⟩)
  | synData hcl => exact absurd hcl hopen
  | stuck hcl => exact absurd hcl hopen

theorem handleFin_upstream (e : PacketEnv) (hopen : ¬ s.state.closed) (h : Upstream S start s a) :
    Upstream S start (handleFin e s).1 a ∧ accepted (handleFin e s).2 = [] := by
  refine handleFin_cases e s ⟨h, rfl⟩ ?_ ?_ ?_
  · intro hst _
    refine ⟨{ h with mode := ?_ }, rfl⟩
    rcases h.open_cases hopen (by simp [hst]) with ⟨_, hseq, hsyn⟩ | hneg | ⟨-, hcw⟩
    · exact .counted (by simp) (by simp) hseq hsyn
    · exact .ended (.inl hneg)
    · simp [hst] at hcw
  · rintro t rfl hst hq
    refine ⟨{ h with mode := .ended (.inr ⟨hq, ?_⟩) }, rfl⟩
    cases e.tun.ack <;> simp
  · rintro t rfl hst
    refine ⟨{ h with mode := ?_ }, rfl⟩
    rcases h.open_cases hopen (by simp [hst]) with ⟨hfin, -⟩ | hneg | ⟨-, hcw⟩
    · exact absurd hst hfin
    · exact .ended (.inl hneg)
    · simp [hst] at hcw

theorem handleFlags_upstream (e : PacketEnv) (p : Packet) (hopen : ¬ s.state.closed)
    (h : Upstream S start s a) :
    Upstream S start (handleFlags e p s).1 a ∧ accepted (handleFlags e p s).2 = [] := by
  refine handleFlags_cases e p s ⟨h, rfl⟩ ?_ ?_ ?_ ?_ ?_
  · exact ⟨h.closed _ closed_closing, rfl⟩
  · exact fun _ _ _ _ => handleFin_upstream e hopen h
  · rintro st rfl _
    refine ⟨?_, rfl⟩
    cases hst : s.state with
    | lastAck => exact h.closed _ closed_closing
    | synRecv =>
      refine { h with mode := ?_ }
      rcases h.open_cases hopen (by simp [hst]) with ⟨_, hseq, hsyn⟩ | hneg | ⟨-, hcw⟩
      · exact .counted (by simp) (by simp) hseq hsyn
      · exact .ended (.inl hneg)
      · simp [hst] at hcw
    | _ => simpa only [Upstream, hst] using h
  · exact fun _ _ => ⟨h, rfl⟩
  · exact fun _ _ => ⟨h.writeRst _, rfl⟩

theorem handleSession_upstream (e : PacketEnv) (p : Packet) (hp : Agrees S start p)
    (h : Upstream S start s a) :
    Upstream S start (handleSession e p s).1 a ∧ accepted (handleSession e p s).2 = [] := by
  refine handleSession_cases e p s ?_ ?_ ?_ ?_
  · exact fun _ => ⟨h.writeRst _, rfl⟩
  · rintro t w rfl _ _ _
    exact ⟨Upstream.writeRst (s := { s with time := e.now, sendWindow := w }) h e.tun.rst, rfl⟩
  · rintro t w rfl hopen _
    exact handleFlags_upstream (s := { s with time := e.now, sendWindow := w }) e p hopen h
  · rintro t w rfl hopen hlen hsock hst
    have hq :=
      Upstream.queue (s := { s with time := e.now, sendWindow := w }) h p hp hlen hsock hopen hst
    exact handleFlags_upstream e p (by simpa using hopen) hq

theorem handleTcp_upstream (abi : Abi) (e : PacketEnv) (p : Packet) (hp : Agrees S start p)
    (h : Upstream S start s a) :
    Upstream S start (handleTcp abi e p s).1 a ∧ accepted (handleTcp abi e p s).2 = [] := by
  refine handleTcp_cases abi e p s ?_ ?_ ?_ ?_ ?_
  · exact fun _ => ⟨h, rfl⟩
  · exact fun _ _ _ _ hport => absurd hport h.port
  · exact fun _ _ _ hport => absurd hport h.port
  · exact fun _ _ _ _ hport => absurd hport h.port
  · rintro t host rfl _ _
    exact handleSession_upstream (s := { s with hostname := host }) e p hp h

theorem checkTcpSocket_upstream (abi : Abi) (e : SocketEnv) (tr : List Out)
    (hS : S.length + 2 < 2 ^ 32) (hok : ∀ i, ∃ n, e.sends i = .ok n)
    (hi : SynDataApart s (.socket e)) (h : Upstream S start s (accepted tr)) :
    Upstream S start (checkTcpSocket abi e s).1 (accepted (tr ++ (checkTcpSocket abi e s).2)) := by
  refine checkTcpSocket_cases abi e s ?_ ?_ ?_ ?_
  · intro _
    simpa [writeRst] using Upstream.writeRst (s := { s with time := e.now }) h e.tun.rst
  · intro _ hst _
    have hrst := h.writeRst e.tun.rst
    refine readReply_cases e s hst ?_ ?_ ?_
    · intro _ _
      simpa [writeRst] using hrst
    · intro _ _ _
      simpa [writeRst] using hrst
    · intro _ _ hsent
      simp [h.direct] at hsent
  · intro _ hst _
    refine handshake_cases e s hst ?_ ?_
    · rintro t rfl
      simpa using { h with mode := h.countSyn hst .synRecv (by simp) (by simp) }
    · rintro t rfl
      simpa using { h with mode := h.countSyn hst .closing (by simp) (by simp) }
  · intro herr hst
    obtain ⟨-, hf⟩ := forwardData_upstream abi e tr hS hst herr hok hi h
    obtain ⟨ha, hnil⟩ := ackForwarded_upstream e (forwardData abi e s).2.1 hf
    obtain ⟨hr, hnil'⟩ := readSocket_upstream e ha
    simpa [relay, hnil, hnil'] using hr

theorem step_upstream (abi : Abi) (i : Input) (tr : List Out) (hS : S.length + 2 < 2 ^ 32)
    (hin : Honest S start i) (hi : SynDataApart s i) (h : Upstream S start s (accepted tr)) :
    Upstream S start (step abi s i).1 (accepted (tr ++ (step abi s i).2)) := by
  cases i with
  | packet e p =>
    obtain ⟨hp, hnil⟩ := handleTcp_upstream abi e p hin h
    show Upstream S start (handleTcp abi e p s).1 (accepted (tr ++ (handleTcp abi e p s).2))
    rwa [accepted_append, hnil, List.append_nil]
  | socket e => exact checkTcpSocket_upstream abi e tr hS hin hi h
  | monitor e =>
    refine monitorStep_cases abi e s (by simpa using h) ?_
    rintro t ev outs ⟨ms, st, rfl, hst, houts⟩
    have hnil : accepted outs = [] := by
      rcases houts with houts | ⟨-, houts⟩ <;> rw [houts] <;> rfl
    rw [accepted_append, hnil, List.append_nil]
    rcases hst with rfl | rfl
    · exact h
    · exact h.closed _ closed_closing
  | check e =>
    show Upstream S start (checkTcpSession e s).1 (accepted (tr ++ (checkTcpSession e s).2.2))
    have hclose : accepted (if 0 ≤ s.socket then [.close s.socket] else []) = [] := by split <;> rfl
    refine checkTcpSession_cases e s ?_ ?_ ?_ ?_
    · intro _
      simpa using h
    · intro _ _
      simpa using h
    · rintro fd del t rfl _ hfd
      simpa [hclose] using { h with mode := .ended (.inl (hfd ▸ closedFd_neg _)) }
    · rintro fd del t rfl _ _ hfd
      simpa [hclose] using { h with mode := .ended (.inl (hfd ▸ closedFd_neg _)) }

end

/-! ## Runs -/

theorem newSession_upstream (S : Bytes) (e : SynEnv) (p : Packet) (hport : ¬ proxied e.dest)
    (hsyn : p.syn = true) (hp : Agrees S p.seq p) : Upstream S p.seq (newSession e p) [] := by
  refine ⟨by simpa using hport, by simp, by simp, ?_, List.nil_prefix,
    .fresh (by simp) (by simp) rfl ?_⟩
  · intro g hg
    rw [newSession_forward] at hg
    split at hg
    · simp at hg
    · rename_i hlen
      have hdata := hp hlen
      rw [if_pos hsyn] at hdata
      rw [List.mem_singleton] at hg
      subst hg
      exact .inl ⟨rfl, hdata.2⟩
  · intro g hg
    rw [newSession_forward] at hg
    split at hg
    · simp at hg
    · rw [List.mem_singleton] at hg
      subst hg
      rfl

/-- The remote socket takes a prefix of the client's stream, in every run that
never forwards data of the SYN with the segment that seems to follow it queued. -/
theorem accepted_prefix (abi : Abi) (S : Bytes) (hS : S.length + 2 < 2 ^ 32) (e : SynEnv)
    (p : Packet) (hport : ¬ proxied e.dest) (hsyn : p.syn = true) (hp : Agrees S p.seq p)
    (is : List Input) (hin : ∀ i ∈ is, Honest S p.seq i)
    (h : Along (step abi) SynDataApart (newSession e p) is) :
    accepted (run (step abi) (newSession e p) is).2 <+: S := by
  have hrun := run_invariant (step abi) (fun s i => Honest S p.seq i ∧ SynDataApart s i)
    (fun s tr => Upstream S p.seq s (accepted tr))
    (fun s tr i hs hi => step_upstream abi i tr hS hi.1 hi.2 hs) is (newSession e p)
    (newSession_upstream S e p hport hsyn hp)
    ((along_and _ _ _ _ _).mpr ⟨along_of_forall _ _ _ hin, h⟩)
  exact hrun.taken

/-- One segment to port 22, sent in one piece. -/
theorem accepted_prefix_one_segment :
    accepted (run (step .arm64V8a) (newSession (plainSyn 22) (synPacket []))
      [.socket writable, .packet plainEnv (plainPacket 1001 5001 (ascii "AB")),
        .socket writable]).2 <+:
      ascii "AB" := by
  refine accepted_prefix .arm64V8a (ascii "AB") (by decide) (plainSyn 22) (synPacket [])
    (by decide) rfl
    (fun h => absurd rfl h) _ ?_ (by decide +kernel)
  have hwrite : Honest (ascii "AB") 1000 (.socket writable) := fun _ => ⟨65536, rfl⟩
  simp only [List.forall_mem_cons, List.not_mem_nil, false_imp_iff, implies_true, and_true]
  exact ⟨hwrite, fun _ => .of_initial (List.prefix_rfl), hwrite⟩

/-- The client sends 'A' with its SYN and "AB" in its next segment, then resets; the
socket becomes writable. -/
def synDataRun : List Input :=
  [.packet plainEnv { plainPacket 1001 0 (ascii "AB") with ack := false },
    .packet plainEnv { plainPacket 1003 0 [] with rst := true }, .socket writable]

/-- The socket is sent "AAB". -/
theorem syn_data_sent_twice :
    Agrees (ascii "AB") 1000 (synPacket (ascii "A")) ∧
      (∀ i ∈ synDataRun, Honest (ascii "AB") 1000 i) ∧
      ¬ accepted (run (step .arm64V8a) (newSession (plainSyn 22) (synPacket (ascii "A")))
        synDataRun).2 <+:
        ascii "AB" := by
  refine ⟨fun _ => ⟨rfl, by decide +kernel⟩, ?_, by decide +kernel⟩
  simp only [synDataRun, List.forall_mem_cons, List.not_mem_nil, false_imp_iff,
    implies_true, and_true]
  exact ⟨fun _ => .of_initial (List.prefix_rfl), fun h => absurd rfl h, fun _ => ⟨65536, rfl⟩⟩

end PdaNetClient.Tcp
