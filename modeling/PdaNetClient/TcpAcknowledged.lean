import PdaNetClient.TcpAccounting

/-!
# What the program acknowledges

A result of -1 is raised to the length of the head before its sign is looked at, so
the error branch of the forward loop is dead: a failed send counts as a complete
one. Without failed sends the acknowledgement number stays behind what the remote
socket accepted, if nothing else moves it: a SYN counted again, a FIN
taken out of order, a cut inside text inserted into a request.
-/
namespace PdaNetClient.Tcp

open Http Runs

set_option autoImplicit false

/-! ## One failed send -/

/-- The send of a pass returns -1. -/
def SendFails (res : SendResult) (after : Memory) (s : Session) (g : Segment)
    (err : Errno) : Prop :=
  patchHead s.dest after g.rest ≠ .overrun ∧ headResult res after s g = .fail err

/-- A pass whose send fails leaves the session for a retry, or resets it. -/
def FailureKeeps (abi : Abi) (rstOk : Bool) (res : SendResult) (after : Memory) (s : Session)
    (g : Segment) (q : List Segment) (fwd : Bool) : Prop :=
  ∀ err, SendFails res after s g err → (sendHead abi rstOk res after s g q fwd).s =
    if err = .eintr ∨ err = .eagain then s else (writeRst rstOk s).1

/-- A failed send takes the head off the queue. -/
theorem failed_send_forward (abi : Abi) (rstOk : Bool) (res : SendResult) (after : Memory)
    (s : Session) (g : Segment) (q : List Segment) (fwd : Bool) (err : Errno)
    (h : SendFails res after s g err) :
    (sendHead abi rstOk res after s g q fwd).s.forward = q := by
  refine sendHead_cases abi rstOk res after s g q fwd ?_ ?_
  · exact fun hover => absurd hover h.1
  · intro n hn hmark
    rw [h.2] at hmark
    have hsent := g.sent_le_len
    simp only [marked] at hmark
    simp only [passed]
    rw [if_pos (by omega)]

theorem failureKeeps_iff (abi : Abi) (rstOk : Bool) (res : SendResult) (after : Memory)
    (s : Session) (g : Segment) (q : List Segment) (fwd : Bool) (hq : s.forward = g :: q) :
    FailureKeeps abi rstOk res after s g q fwd ↔ ∀ err, ¬ SendFails res after s g err := by
  constructor
  · intro hkeep err hfail
    have hforward := failed_send_forward abi rstOk res after s g q fwd err hfail
    have hsame : (sendHead abi rstOk res after s g q fwd).s.forward = s.forward := by
      rw [hkeep err hfail]
      split
      · rfl
      · exact writeRst_forward rstOk s
    rw [hforward, hq] at hsame
    simpa using congrArg List.length hsame
  · exact fun hnone err hfail => absurd hfail (hnone err)

/-! ## The acknowledgement number -/

/-- Bytes of the client's stream that the remote socket took. -/
@[simp] def Out.clientBytes : Out → Nat
  | .forward _ _ patch (some k) => patch.original k
  | _ => 0

/-- Of a stream of `len` bytes, each one that `remote_seq` covers was accepted. -/
def NeverCovers (len : Nat) (s : Session) (tr : List Out) : Prop :=
  ∀ j < len, j + 1 < (s.remoteSeq - s.remoteStart).toNat → j < total Out.clientBytes tr

instance (len : Nat) (s : Session) (tr : List Out) : Decidable (NeverCovers len s tr) :=
  inferInstanceAs (Decidable (∀ j < len, _))

/-- A send that succeeds and does not cut the inserted text. -/
def CleanCut (patch : Patch) (len : Nat) : SendResult → Prop
  | .ok k =>
    match patch with
    | .insert pos text => k ≤ pos ∨ pos = len ∨ len + text.length ≤ k
    | _ => True
  | .fail _ => False

instance (patch : Patch) (len : Nat) (r : SendResult) : Decidable (CleanCut patch len r) := by
  cases r <;> cases patch <;> unfold CleanCut <;> infer_instance

def RecvResult.isOk : RecvResult → Bool
  | .ok _ => true
  | .fail _ => false

/-- The sequence number behind the last segment. -/
def lastEnd : List Segment → U32
  | [] => 0
  | [g] => g.seq + BitVec.ofNat 32 g.len
  | _ :: g :: q => lastEnd (g :: q)

/-- The queue after the data of a packet was offered to it. -/
def afterQueue (p : Packet) (s : Session) : List Segment :=
  if p.datalen = 0 then s.forward else (queueTcp p s).forward

/-- The packet gets as far as the FIN branch of `handle_tcp`. -/
def Finishes (p : Packet) (s : Session) : Prop :=
  p.urg = false ∧ p.fin = true ∧ p.rst = false ∧ p.syn = false ∧
    (p.ack = false ∨ p.ackSeq = s.localSeq)

instance (p : Packet) (s : Session) : Decidable (Finishes p s) :=
  inferInstanceAs (Decidable (_ ∧ _))

/-- The number of a FIN. -/
def Packet.finSeq (p : Packet) : U32 := p.seq + BitVec.ofNat 32 p.datalen

/-- Steps that acknowledge nothing too much: in LISTEN with the SYN counted only a
reply to the CONNECT request is read; every send is clean; a FIN is taken when
everything before it is forwarded or queued. -/
def AcksAccepted (s : Session) : Input → Prop
  | .packet _ p => Finishes p s → s.state = .established ∨ s.state = .finWait1 →
      p.finSeq = if s.state = .finWait1 ∨ afterQueue p s =
        [] then s.remoteSeq else lastEnd (afterQueue p s)
  | .socket e =>
      (s.state = .listen → s.remoteSeq ≠ s.remoteStart → e.ev.err = false ∧ e.ev.inn = true ∧
        s.connectSent = .sent ∧ (sockRecv s.socket e.recv 12).isOk = true) ∧
      (s.state ≠ .listen → e.ev.err = false → e.ev.out = true → ∀ i (_ : i < s.forward.length),
        CleanCut (patchHead s.dest (e.after i) s.forward[i].rest) s.forward[i].rest.length
          (e.sends i))
  | _ => True

instance (s : Session) : (i : Input) → Decidable (AcksAccepted s i)
  | .packet _ _ | .socket _ | .monitor _ | .check _ => by unfold AcksAccepted; infer_instance

/-- The client numbers its FIN behind its stream. -/
def FinBehind (start : U32) (len : Nat) : Input → Prop
  | .packet _ p => p.fin = true → p.finSeq = start + 1 + BitVec.ofNat 32 len
  | _ => True

instance (start : U32) (len : Nat) : (i : Input) → Decidable (FinBehind start len i)
  | .packet _ _ | .socket _ | .monitor _ | .check _ => by unfold FinBehind; infer_instance

/-- The invariant, over the fields it reads; `a` bytes were accepted. -/
structure CoverAt (len dest : Nat) (connectSent : ConnectSent) (remoteStart remoteSeq : U32)
    (st : State) (q : List Segment) (a : Nat) : Prop where
  cover : (remoteSeq - remoteStart).toNat ≤ 1 + a ∨ len ≤ a
  listen : st = .listen → remoteSeq = remoteStart ∨ proxied dest ∧ connectSent = .sent
  early : proxied dest → connectSent ≠ .established → st = .listen ∨ st = .synRecv ∨ st.closed
  wait : st = .closeWait → if q = [] then len ≤ a else lastEnd q =
    remoteStart + 1 + BitVec.ofNat 32 len

abbrev Cover (len : Nat) (s : Session) (a : Nat) : Prop :=
  CoverAt len s.dest s.connectSent s.remoteStart s.remoteSeq s.state s.forward a

section

variable {len : Nat} {s : Session} {a : Nat}

theorem Cover.closed (h : Cover len s a) (st : State) (hst : st.closed) :
    Cover len { s with state := st } a := by
  have hne : st ≠ .listen ∧ st ≠ .closeWait := by rcases hst with rfl | rfl <;> simp
  exact ⟨h.cover, fun hl => absurd hl hne.1, fun _ _ => .inr (.inr hst), fun hl => absurd hl hne.2⟩

theorem countSyn_cover (len a : Nat) (hseq : s.remoteSeq = s.remoteStart) (st : State)
    (hst : st = .synRecv ∨ st = .closing) :
    Cover len { s with remoteSeq := s.remoteSeq + 1, state := st } a := by
  refine ⟨.inl ?_, ?_, ?_, ?_⟩
  · simp only [hseq, add_sub_cancel_left]
    rw [show (1 : U32).toNat = 1 from rfl]
    omega
  · rcases hst with rfl | rfl <;> simp
  · rcases hst with rfl | rfl <;> simp
  · rcases hst with rfl | rfl <;> simp

theorem Cover.writeRst (h : Cover len s a) (ok : Bool)
    (hseq : s.state = .listen → s.remoteSeq = s.remoteStart) : Cover len (writeRst ok s).1 a := by
  refine writeRst_cases ok s (fun hl => ?_) (fun st _ hst _ => ?_)
  · exact countSyn_cover len a (hseq hl) .closing (.inr rfl)
  · exact h.closed st hst

theorem Cover.queue (h : Cover len s a) (p : Packet) (hst : s.state ≠ .closeWait) :
    Cover len (queueTcp p s) a := by
  rw [queueTcp_eq]
  exact ⟨h.cover, h.listen, h.early, fun hcw => absurd hcw hst⟩

/-! ## The forward loop -/

theorem toNat_add_ofNat_le (x : U32) (n : Nat) : (x + BitVec.ofNat 32 n).toNat ≤ x.toNat + n := by
  rw [BitVec.toNat_add, BitVec.toNat_ofNat]
  have h1 := Nat.mod_le (x.toNat + n % 2 ^ 32) (2 ^ 32)
  have h2 := Nat.mod_le n (2 ^ 32)
  omega

theorem lastEnd_advance (g : Segment) (q : List Segment) (n : Nat) (h : n ≤ g.len - g.sent) :
    lastEnd (g.advance n h :: q) = lastEnd (g :: q) := by
  cases q <;> rfl

theorem lastEnd_cons (g : Segment) (q : List Segment) (h : q ≠ []) :
    lastEnd (g :: q) = lastEnd q := by
  cases q with
  | nil => exact absurd rfl h
  | cons g' q => rfl

theorem Cover.pass (h : Cover len s a) (hlen : len + 2 < 2 ^ 32) (hst : s.state ≠ .listen)
    {g : Segment} {q : List Segment} {n k : Nat} (hn : n ≤ g.len - g.sent) (hq : s.forward = g :: q)
    (hseq : g.seq + BitVec.ofNat 32 g.sent = s.remoteSeq) (hk : n ≤ k) :
    Cover len (passed s g q n hn) (a + k) := by
  have hnext := passed_remoteSeq s g q n hn hseq
  have hcover : ((passed s g q n hn).remoteSeq - s.remoteStart).toNat ≤
      1 + (a + k) ∨ len ≤ a + k := by
    rw [hnext, add_sub_right_comm]
    have hle := toNat_add_ofNat_le (s.remoteSeq - s.remoteStart) n
    rcases h.cover with hc | hc <;> omega
  refine ⟨hcover, fun hl => absurd hl hst, h.early, fun hcw => ?_⟩
  · have hwait := h.wait hcw
    rw [hq, if_neg (by simp)] at hwait
    by_cases hfull : g.len = g.sent + n
    · by_cases hnil : q = []
      · subst hnil
        have hend : (passed s g [] n hn).remoteSeq - s.remoteStart = BitVec.ofNat 32 (1 + len) := by
          simp only [lastEnd, hfull] at hwait
          simp only [passed, hwait]
          rw [add_assoc, add_sub_cancel_left, BitVec.ofNat_add]
          rfl
        rw [hend, BitVec.toNat_ofNat, Nat.mod_eq_of_lt (by omega)] at hcover
        simp only [passed, hfull, if_true]
        omega
      · simp only [passed, hfull, if_true, if_neg hnil]
        rwa [lastEnd_cons g q hnil] at hwait
    · simp only [passed, if_neg hfull, reduceCtorEq, if_false, lastEnd_advance]
      exact hwait

theorem CleanCut.marks {patch : Patch} {len m : Nat} (h : CleanCut patch len (.ok m)) :
    min (min m (len + patch.inserted)) len ≤ patch.original (min m (len + patch.inserted)) := by
  cases patch with
  | unchanged => exact Nat.min_le_left _ _
  | overrun => exact Nat.min_le_left _ _
  | insert pos text =>
    simp only [CleanCut] at h
    show min (min m (len + text.length)) len ≤ if min m (len + text.length) ≤ pos
      then min m (len + text.length) else max pos (min m (len + text.length) - text.length)
    split <;> omega

/-- A clean send takes at least as many of the client's bytes as the pass marks. -/
theorem cleanCut_marks (res : SendResult) (after : Memory) (g : Segment) (hsock : 0 ≤ s.socket)
    (hcut : CleanCut (patchHead s.dest after g.rest) g.rest.length res) (st : State) :
    marked (headResult res after s g) (g.len - g.sent) ≤
      (Out.forward st g.rest (patchHead s.dest after g.rest)
        (headResult res after s g).count).clientBytes := by
  cases res with
  | fail err => exact absurd hcut id
  | ok m =>
    have hneg : ¬ s.socket < 0 := by omega
    simp only [headResult, sockSend, if_neg hneg, SendResult.count, marked, Out.clientBytes,
      length_apply, ← Segment.length_rest]
    exact hcut.marks

theorem forwardData_cover (abi : Abi) (e : SocketEnv) (tr : List Out) (hlen : len + 2 < 2 ^ 32)
    (hst : s.state ≠ .listen)
    (hclean : e.ev.out = true → ∀ i (_ : i < s.forward.length), CleanCut
      (patchHead s.dest (e.after i) s.forward[i].rest) s.forward[i].rest.length (e.sends i))
    (h : Cover len s (total Out.clientBytes tr)) :
    Cover len (forwardData abi e s).1
      (total Out.clientBytes (tr ++ (forwardData abi e s).2.2)) := by
  by_cases hsock : s.socket < 0
  · rw [forwardData_no_socket abi e s hsock]
    simpa using h
  · by_cases hout : e.ev.out = true
    · have hrule := forwardData_rule
        (fun _ t tr => t.state = s.state ∧ t.dest = s.dest ∧ 0 ≤ t.socket ∧
          Cover len t (total Out.clientBytes tr)) abi e s tr
        (fun _ t tr ht => by simpa using ht)
        (fun i _ t tr g q n hn ht hdrop hq hseq hmark => by
          obtain ⟨hstate, hdest, hopen, hcover⟩ := ht
          obtain ⟨hi, hg⟩ := getElem_of_drop hdrop
          have hcut := hclean hout i hi
          rw [hg, ← hdest] at hcut
          have hle := cleanCut_marks (s := t) (e.sends i) (e.after i) g hopen hcut t.state
          refine ⟨hstate, hdest, hopen, ?_⟩
          rw [total_append, total_cons, total_nil, Nat.add_zero]
          exact hcover.pass hlen (by rwa [hstate]) hn hq hseq (hmark ▸ hle))
        ⟨rfl, rfl, by omega, h⟩
      exact hrule.2.2.2
    · simp only [forwardData, hout, Bool.false_eq_true, if_false, List.append_nil]
      exact h

theorem acked_cover (e : SocketEnv) (t : Session) (h : Cover len t a) :
    Cover len (acked e t) a := by
  unfold acked
  split
  · exact h
  · exact h.closed _ closed_closing

theorem ackForwarded_cover (e : SocketEnv) (fwd : Bool) (h : Cover len s a) :
    Cover len (ackForwarded e fwd s).1 a ∧ total Out.clientBytes (ackForwarded e fwd s).2 = 0 := by
  refine ackForwarded_cases e fwd s (fun _ => ⟨h, rfl⟩) ?_ ?_
  · rintro t rfl _ hq hst
    have hall : len ≤ a := by simpa [hq] using h.wait hst
    exact ⟨acked_cover e _ { h with
      cover := .inr hall, listen := by simp [hst], wait := by simp [hq, hall] }, rfl⟩
  · rintro t rfl _ _
    exact ⟨acked_cover e _ h, rfl⟩

theorem readSocket_cover (e : SocketEnv) (h : Cover len s a) :
    Cover len (readSocket e s).1 a ∧ total Out.clientBytes (readSocket e s).2 = 0 := by
  refine readSocket_cases e s ⟨h, rfl⟩ ?_ ?_ ?_ ?_ ?_
  · exact fun _ _ => ⟨h, rfl⟩
  · exact fun _ _ => ⟨h.closed _ closed_closing, rfl⟩
  · intro asked hst
    refine handleEof_cases e { s with time := e.now } hst ?_ ?_ ?_
    · exact fun _ => ⟨h.closed _ closed_closing, rfl⟩
    · intro _ _
      refine ⟨⟨h.cover, ?_, ?_, ?_⟩, rfl⟩
      · rcases hst with hst | hst <;> simp [hst]
      · intro hport hsent
        have := h.early hport hsent
        rcases hst with hst | hst <;> simp [hst] at this
      · rcases hst with hst | hst <;> simp [hst]
    · exact fun _ _ => ⟨h.closed _ closed_closing, rfl⟩
  · rintro asked bytes t _ _ _ rfl _
    exact ⟨h, rfl⟩
  · rintro asked bytes t _ _ rfl _
    exact ⟨h.closed _ closed_closing, rfl⟩

/-- Of a FIN in order, everything before it is accepted or queued. -/
theorem handleFin_cover (e : PacketEnv) (hlen : len + 2 < 2 ^ 32) (h : Cover len s a)
    (hfin : s.state = .established ∨ s.state = .finWait1 → s.remoteStart + 1 + BitVec.ofNat 32 len =
      if s.state = .finWait1 ∨ s.forward = [] then s.remoteSeq else lastEnd s.forward) :
    Cover len (handleFin e s).1 a ∧ total Out.clientBytes (handleFin e s).2 = 0 := by
  have hall (hseq : s.remoteStart + 1 + BitVec.ofNat 32 len = s.remoteSeq) : len ≤ a := by
    have hcover := h.cover
    rw [← hseq, add_assoc, add_sub_cancel_left, show (1 : U32) = BitVec.ofNat 32 1 from rfl,
      ← BitVec.ofNat_add, BitVec.toNat_ofNat, Nat.mod_eq_of_lt (by omega)] at hcover
    omega
  refine handleFin_cases e s ⟨h, rfl⟩ ?_ ?_ ?_
  · intro hst hq
    have hend := hfin (.inl hst)
    refine ⟨{ h with listen := by simp, early := ?_, wait := ?_ }, rfl⟩
    · intro hport hsent
      have := h.early hport hsent
      simp [hst] at this
    · simpa [hst, hq] using hend.symm
  · rintro t rfl hst hq
    have hend := hall (by simpa [hst, hq] using hfin (.inl hst))
    refine ⟨⟨.inr hend, ?_, ?_, fun _ => by simp [hq, hend]⟩, rfl⟩
    · cases e.tun.ack <;> simp
    · intro hport hsent
      have := h.early hport hsent
      simp [hst] at this
  · rintro t rfl hst
    have hend := hall (by simpa [hst] using hfin (.inr hst))
    refine ⟨⟨.inr hend, ?_, ?_, ?_⟩, rfl⟩
    · cases e.tun.ack <;> simp
    · intro _ _
      cases e.tun.ack <;> simp
    · cases e.tun.ack <;> simp

/-- What a FIN in order says of the session that handles its flags. -/
def InOrder (len : Nat) (p : Packet) (s : Session) : Prop :=
  p.fin = true → p.rst = false → p.syn = false → (p.ack = false ∨ p.ackSeq = s.localSeq) →
    s.state = .established ∨ s.state = .finWait1 → s.remoteStart + 1 + BitVec.ofNat 32 len =
      if s.state = .finWait1 ∨ s.forward = [] then s.remoteSeq else lastEnd s.forward

theorem handleFlags_cover (e : PacketEnv) (p : Packet) (hlen : len + 2 < 2 ^ 32) (h : Cover len s a)
    (hseq : s.state = .listen → s.remoteSeq = s.remoteStart)
    (hconn : proxied s.dest → s.connectSent = .established) (hfin : InOrder len p s) :
    Cover len (handleFlags e p s).1 a ∧ total Out.clientBytes (handleFlags e p s).2 = 0 := by
  refine handleFlags_cases e p s ⟨h, rfl⟩ ?_ ?_ ?_ ?_ ?_
  · exact ⟨h.closed _ closed_closing, rfl⟩
  · exact fun h1 h2 h3 h4 => handleFin_cover e hlen h (hfin h1 h2 h3 h4)
  · rintro st rfl _
    refine ⟨⟨h.cover, ?_, fun hport hsent => absurd (hconn hport) hsent, ?_⟩, rfl⟩
    · cases hst : s.state <;> simp_all
    · have hwait := h.wait
      cases hst : s.state <;> simp_all
  · exact fun _ _ => ⟨h, rfl⟩
  · exact fun _ _ => ⟨h.writeRst _ hseq, by simp [Tcp.writeRst]⟩

theorem queueTcp_forward_congr (p : Packet) {s t : Session} (hseq : t.remoteSeq = s.remoteSeq)
    (hq : t.forward = s.forward) : (queueTcp p t).forward = (queueTcp p s).forward := by
  unfold queueTcp
  rw [hseq]
  split
  · exact hq
  · simp only [hq]

theorem handleSession_cover (e : PacketEnv) (p : Packet) (hlen : len + 2 < 2 ^ 32)
    (h : Cover len s a) (hconn : proxied s.dest → s.connectSent = .established)
    (hurg : p.urg = false)
    (hbehind : p.fin = true → p.finSeq = s.remoteStart + 1 + BitVec.ofNat 32 len)
    (hi : AcksAccepted s (.packet e p)) :
    Cover len (handleSession e p s).1 a ∧ total Out.clientBytes (handleSession e p s).2 = 0 := by
  have hseq (hl : s.state = .listen) : s.remoteSeq = s.remoteStart := by
    refine (h.listen hl).resolve_right fun hsent => ?_
    simp [hconn hsent.1] at hsent
  have horder (q : List Segment) (hq : q = afterQueue p s) (w : U32) : InOrder len p
      { s with time := e.now, sendWindow := w, forward := q } := by
    intro hf hrst hsyn hack hst
    rw [← hbehind hf, hi ⟨hurg, hf, hrst, hsyn, hack⟩ hst, hq]
  refine handleSession_cases e p s ?_ ?_ ?_ ?_
  · exact fun _ => ⟨h.writeRst _ hseq, by simp [Tcp.writeRst]⟩
  · rintro t w rfl _ _ _
    exact ⟨Cover.writeRst (s := { s with time := e.now, sendWindow := w }) h e.tun.rst hseq,
      by simp [Tcp.writeRst]⟩
  · rintro t w rfl _ hzero
    have hq : s.forward = afterQueue p s := by simp [afterQueue, hzero]
    exact handleFlags_cover (s := { s with time := e.now, sendWindow := w }) e p hlen h hseq hconn
      (horder s.forward hq w)
  · rintro t w rfl _ hdata _ hst
    have hq : (queueTcp p { s with time := e.now, sendWindow := w }).forward = afterQueue p s := by
      simp only [afterQueue, if_neg hdata]
      exact queueTcp_forward_congr p rfl rfl
    have hcover := Cover.queue (s := { s with time := e.now, sendWindow := w }) h p hst
    have horder' := horder _ hq w
    rw [queueTcp_eq] at hcover ⊢
    exact handleFlags_cover e p hlen hcover hseq hconn horder'

theorem handleTcp_cover (abi : Abi) (e : PacketEnv) (p : Packet) (hlen : len + 2 < 2 ^ 32)
    (h : Cover len s a)
    (hbehind : p.fin = true → p.finSeq = s.remoteStart + 1 + BitVec.ofNat 32 len)
    (hi : AcksAccepted s (.packet e p)) :
    Cover len (handleTcp abi e p s).1 a ∧ total Out.clientBytes (handleTcp abi e p s).2 = 0 := by
  have hearly (hport : proxied s.dest) (hsent : s.connectSent ≠ .established) :
      s.state ≠ .closeWait := by
    intro hst
    have := h.early hport hsent
    simp [hst] at this
  refine handleTcp_cases abi e p s ?_ ?_ ?_ ?_ ?_
  · exact fun _ => ⟨h, rfl⟩
  · rintro t host rfl _ hport hsent
    exact ⟨Cover.queue (s := { s with hostname := host }) h p (hearly hport (by simp [hsent])), rfl⟩
  · rintro t rfl _ hport hsent
    have hseq (hl : s.state = .listen) : s.remoteSeq = s.remoteStart := by
      refine (h.listen hl).resolve_right fun hs => ?_
      simp [hsent] at hs
    have hrst :=
      Cover.writeRst (s := { s with hostname := packetHostname abi p s }) h e.tun.rst hseq
    refine ⟨hrst.queue p ?_, by simp [Tcp.writeRst]⟩
    rcases writeRst_closed e.tun.rst { s with hostname := packetHostname abi p s }
      with hc | hc <;> simp [hc]
  · rintro t n rfl _ hport hsent _
    have hwait : Cover len { s with
        hostname := packetHostname abi p s, connectSent := .sent, state := .listen } a :=
      ⟨h.cover, fun _ => .inr ⟨hport, rfl⟩, fun _ _ => .inl rfl, by simp⟩
    exact ⟨hwait.queue p (by simp), rfl⟩
  · rintro t host rfl hurg hsent
    have hq : afterQueue p { s with hostname := host } = afterQueue p s := by
      simp only [afterQueue,
        queueTcp_forward_congr p (s := s) (t := { s with hostname := host }) rfl rfl]
    refine handleSession_cover (s := { s with hostname := host }) e p hlen h hsent hurg hbehind ?_
    simp only [AcksAccepted, hq]
    exact hi

theorem checkTcpSocket_cover (abi : Abi) (e : SocketEnv) (tr : List Out) (hlen : len + 2 < 2 ^ 32)
    (hi : AcksAccepted s (.socket e)) (h : Cover len s (total Out.clientBytes tr)) :
    Cover len (checkTcpSocket abi e s).1
      (total Out.clientBytes (tr ++ (checkTcpSocket abi e s).2)) := by
  obtain ⟨hlisten, hclean⟩ := hi
  -- a RST or a handshake that counts the SYN again would acknowledge a byte
  have hfirst (hst : s.state = .listen)
    (hno : ¬ (e.ev.err = false ∧ e.ev.inn = true ∧ s.connectSent = .sent ∧
      (sockRecv s.socket e.recv 12).isOk)) : s.remoteSeq = s.remoteStart := by
    by_contra hne
    exact hno (hlisten hst hne)
  refine checkTcpSocket_cases abi e s ?_ ?_ ?_ ?_
  · intro herr
    have hseq (hst : s.state = .listen) : s.remoteSeq = s.remoteStart := hfirst hst (by simp [herr])
    simpa [Tcp.writeRst] using Cover.writeRst (s := { s with time := e.now }) h e.tun.rst hseq
  · intro _ hst _
    refine readReply_cases e s hst ?_ ?_ ?_
    · intro err hfail
      have hseq := hfirst hst (by simp [hfail, RecvResult.isOk])
      simpa [Tcp.writeRst] using h.writeRst e.tun.rst fun _ => hseq
    · intro bytes _ hsent
      have hseq := hfirst hst (by simp [hsent])
      simpa [Tcp.writeRst] using h.writeRst e.tun.rst fun _ => hseq
    · intro bytes _ _
      rw [total_append, total_cons, total_drained Out.clientBytes (fun _ _ _ => rfl)]
      exact ⟨h.cover, by simp, by simp, by simp⟩
  · intro _ hst hinn
    have hseq := hfirst hst (by simp [hinn])
    refine handshake_cases e s hst ?_ ?_
    · rintro t rfl
      simpa using countSyn_cover len _ hseq .synRecv (.inl rfl)
    · rintro t rfl
      simpa using countSyn_cover len _ hseq .closing (.inr rfl)
  · intro herr hst
    have hf := forwardData_cover abi e tr hlen hst (hclean hst herr) h
    obtain ⟨ha, hnil⟩ := ackForwarded_cover e (forwardData abi e s).2.1 hf
    obtain ⟨hr, hnil'⟩ := readSocket_cover e ha
    simpa [relay, hnil, hnil'] using hr

theorem step_cover (abi : Abi) (i : Input) (tr : List Out) (hlen : len + 2 < 2 ^ 32)
    (hbehind : FinBehind s.remoteStart len i) (hi : AcksAccepted s i)
    (h : Cover len s (total Out.clientBytes tr)) :
    Cover len (step abi s i).1 (total Out.clientBytes (tr ++ (step abi s i).2)) := by
  cases i with
  | packet e p =>
    obtain ⟨hp, hnil⟩ := handleTcp_cover abi e p hlen h hbehind hi
    show Cover len (handleTcp abi e p s).1 (total Out.clientBytes (tr ++ (handleTcp abi e p s).2))
    rwa [total_append, hnil, Nat.add_zero]
  | socket e => exact checkTcpSocket_cover abi e tr hlen hi h
  | monitor e =>
    refine monitorStep_cases abi e s (by simpa using h) ?_
    rintro t ev outs ⟨ms, st, rfl, hst, houts⟩
    have hnil : total Out.clientBytes outs = 0 := by
      rcases houts with houts | ⟨-, houts⟩ <;> rw [houts] <;> rfl
    rw [total_append, hnil]
    rcases hst with rfl | rfl
    · exact h
    · exact h.closed _ closed_closing
  | check e =>
    show Cover len (checkTcpSession e s).1 (total Out.clientBytes (tr ++ (checkTcpSession e s).2.2))
    have hclose : total Out.clientBytes (if 0 ≤ s.socket then [.close s.socket] else []) = 0 := by
      split <;> rfl
    refine checkTcpSession_cases e s ?_ ?_ ?_ ?_
    · intro _
      simpa using h
    · intro _ _
      simpa using h
    · rintro fd del t rfl _ _
      simpa [hclose] using h.closed _ closed_close
    · rintro fd del t rfl _ _ _
      simpa [hclose] using h.closed _ closed_close

theorem Cover.neverCovers {tr : List Out} (h : Cover len s (total Out.clientBytes tr)) :
    NeverCovers len s tr := by
  intro j hj hcovered
  rcases h.cover with hc | hc <;> omega

end

/-- No pass survives a failed send, and a run whose steps acknowledge only what was
accepted never covers an unaccepted byte of the client's. -/
theorem acknowledged_was_accepted (abi : Abi) :
    (∀ (rstOk : Bool) (res : SendResult) (after : Memory) (s : Session) (g : Segment)
      (q : List Segment) (fwd : Bool), s.forward = g :: q →
      (FailureKeeps abi rstOk res after s g q fwd ↔ ∀ err, ¬ SendFails res after s g err)) ∧
    ∀ (len : Nat) (e : SynEnv) (p : Packet) (is : List Input), len + 2 < 2 ^ 32 →
      (∀ i ∈ is, FinBehind p.seq len i) → Along (step abi) AcksAccepted (newSession e p) is →
      NeverCovers len (run (step abi) (newSession e p) is).1
        (run (step abi) (newSession e p) is).2 := by
  refine ⟨failureKeeps_iff abi, fun len e p is hlen hin h => ?_⟩
  have hrun := run_invariant (step abi) (fun s i => FinBehind p.seq len i ∧ AcksAccepted s i)
    (fun s tr => s.remoteStart = p.seq ∧ Cover len s (total Out.clientBytes tr))
    (fun s tr i hs hi => ⟨(step_remoteStart abi s i).trans hs.1,
      step_cover abi i tr hlen (by rw [hs.1]; exact hi.1) hi.2 hs.2⟩)
    is (newSession e p)
    ⟨rfl, .inl (by simp), fun _ => .inl (by simp), fun _ _ => .inl rfl, by simp⟩
    ((along_and _ _ _ _ _).mpr ⟨along_of_forall _ _ _ hin, h⟩)
  exact hrun.2.neverCovers

/-- The client's only segment, "AB", and its queueing behind the handshake. -/
def segmentAB : Segment := newSegment (plainPacket 1001 5001 (ascii "AB"))

def queueAB : List Input :=
  [.socket writable, .packet plainEnv (plainPacket 1001 5001 (ascii "AB"))]

def queuedAB : Session := (run (step .arm64V8a) (newSession (plainSyn 22) (synPacket [])) queueAB).1

/-- A send that takes one byte, another that takes the rest, and a FIN. -/
theorem acknowledged_was_accepted_two_sends :
    FailureKeeps .arm64V8a true (.ok 1) (fun _ => 0) queuedAB segmentAB [] false ∧
      NeverCovers 2 (run (step .arm64V8a) (newSession (plainSyn 22) (synPacket [])) (queueAB ++
        [.socket { writable with sends := fun _ => .ok 1 }, .socket writable,
          .packet plainEnv { plainPacket 1003 5001 [] with fin := true }])).1
        (run (step .arm64V8a) (newSession (plainSyn 22) (synPacket [])) (queueAB ++
        [.socket { writable with sends := fun _ => .ok 1 }, .socket writable,
          .packet plainEnv { plainPacket 1003 5001 [] with fin := true }])).2 := by
  constructor
  · refine ((acknowledged_was_accepted .arm64V8a).1 _ _ _ _ _ _ _ (by decide +kernel)).mpr ?_
    exact fun err h => absurd h.2 (by cases err <;> decide +kernel)
  · exact (acknowledged_was_accepted .arm64V8a).2 2 (plainSyn 22) (synPacket []) _ (by decide)
      (by decide +kernel) (by decide +kernel)

/-- The send of "AB" fails with EAGAIN, and both bytes are acknowledged. -/
theorem eagain_acknowledged :
    ¬ FailureKeeps .arm64V8a true (.fail .eagain) (fun _ => 0) queuedAB segmentAB [] false ∧
      ¬ NeverCovers 2 (step .arm64V8a queuedAB
          (.socket { writable with sends := fun _ => .fail .eagain })).1
        (run (step .arm64V8a) (newSession (plainSyn 22) (synPacket []))
          (queueAB ++ [.socket { writable with sends := fun _ => .fail .eagain }])).2 := by
  refine ⟨fun h => ?_, by decide +kernel⟩
  have hkeep := h .eagain ⟨by decide +kernel, by decide +kernel⟩
  exact absurd (congrArg Session.forward hkeep) (by decide +kernel)

end PdaNetClient.Tcp
