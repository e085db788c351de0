import PdaNetClient.TcpClosed

/-!
# Sequence-number accounting

The ledger of a run counts what its outputs say: SYNs, bytes marked as sent, FINs
confirmed, payload and FINs written. The two sequence numbers of an open session are
its ledger. That the handshake is done once is a fact of its own, since
the CONNECT request puts the session back to LISTEN.
-/
namespace PdaNetClient.Tcp

open Http Runs

set_option autoImplicit false

/-! ## The ledger -/

/-- Bytes of the client's stream that a pass of the forward loop marks as sent. -/
@[simp] def Out.marks : Out → Nat
  | .forward _ data _ (some n) => min n data.length
  | .forward _ data _ none => data.length
  | _ => 0

/-- The handshake is the only write of a SYN. -/
@[simp] def Out.syns : Out → Nat
  | .tun _ p _ => if p.syn then 1 else 0
  | _ => 0

@[simp] def Out.finsConfirmed : Out → Nat
  | .remoteFin => 1
  | _ => 0

@[simp] def Out.payload : Out → Nat
  | .tun _ p true => p.data.length
  | _ => 0

@[simp] def Out.finsWritten : Out → Nat
  | .tun _ p true => if p.fin then 1 else 0
  | _ => 0

def total (f : Out → Nat) (tr : List Out) : Nat := (tr.map f).sum

section total

variable (f : Out → Nat)

@[simp] theorem total_nil : total f [] = 0 := rfl
@[simp] theorem total_cons (o : Out) (tr : List Out) : total f (o :: tr) = f o + total f tr := by
  simp [total]
@[simp] theorem total_append (a b : List Out) : total f (a ++ b) = total f a + total f b := by
  simp [total]

theorem total_zero (tr : List Out) (h : ∀ o ∈ tr, f o = 0) : total f tr = 0 := by
  induction tr with
  | nil => rfl
  | cons o tr ih =>
    have ho := h o (by simp)
    have htr := ih fun x hx => h x (by simp [hx])
    rw [total_cons, ho, htr]

end total

theorem marks_forward (st : State) (data : Bytes) (p : Patch) (r : SendResult) :
    (Out.forward st data p r.count).marks = marked r data.length := by
  cases r <;> rfl

/-! ## Before the tunnel -/

/-- A proxied session that is not connected has not got past SYN_RECV, unless it is closed. -/
def Early (s : Session) : Prop :=
  proxied s.dest → s.connectSent ≠ .established →
    s.state = .listen ∨ s.state = .synRecv ∨ s.state.closed

/-- What a packet on an existing session leaves alone: it neither connects nor
goes back to LISTEN, and writes no SYN. -/
structure Stays (s : Session) (r : Session × List Out) : Prop where
  dest : r.1.dest = s.dest
  connectSent : r.1.connectSent = s.connectSent
  remoteStart : r.1.remoteStart = s.remoteStart
  listen : r.1.state = .listen → s.state = .listen
  syns : total Out.syns r.2 = 0

theorem writeRst_stays (ok : Bool) (s : Session) : Stays s (writeRst ok s) := by
  refine writeRst_cases ok s (fun h => ?_) (fun st h hst _ => ?_)
  · exact ⟨rfl, rfl, rfl, fun _ => h, rfl⟩
  · refine ⟨rfl, rfl, rfl, fun hl => ?_, rfl⟩
    simp only at hl
    simp [hl] at hst

theorem handleFin_stays (e : PacketEnv) (s : Session) : Stays s (handleFin e s) := by
  refine handleFin_cases e s ?_ ?_ ?_ ?_
  · exact ⟨rfl, rfl, rfl, id, rfl⟩
  · exact fun _ _ => ⟨rfl, rfl, rfl, by simp, rfl⟩
  · rintro t rfl _ _
    exact ⟨rfl, rfl, rfl, by cases e.tun.ack <;> simp, rfl⟩
  · rintro t rfl _
    exact ⟨rfl, rfl, rfl, by cases e.tun.ack <;> simp, rfl⟩

theorem handleFlags_stays (e : PacketEnv) (p : Packet) (s : Session) :
    Stays s (handleFlags e p s) := by
  refine handleFlags_cases e p s ?_ ?_ ?_ ?_ ?_ ?_
  · exact ⟨rfl, rfl, rfl, id, rfl⟩
  · exact ⟨rfl, rfl, rfl, by simp, rfl⟩
  · exact fun _ _ _ _ => handleFin_stays e s
  · rintro st rfl _
    exact ⟨rfl, rfl, rfl, by cases h : s.state <;> simp, rfl⟩
  · exact fun _ _ => ⟨rfl, rfl, rfl, id, rfl⟩
  · exact fun _ _ => writeRst_stays _ s

theorem handleSession_stays (e : PacketEnv) (p : Packet) (s : Session) :
    Stays s (handleSession e p s) := by
  refine handleSession_cases e p s ?_ ?_ ?_ ?_
  · exact fun _ => writeRst_stays _ s
  · rintro t w rfl _ _ _
    have h := writeRst_stays e.tun.rst { s with time := e.now, sendWindow := w }
    exact ⟨h.dest, h.connectSent, h.remoteStart, h.listen, h.syns⟩
  · rintro t w rfl _ _
    have h := handleFlags_stays e p { s with time := e.now, sendWindow := w }
    exact ⟨h.dest, h.connectSent, h.remoteStart, h.listen, h.syns⟩
  · rintro t w rfl _ _ _ _
    have h := handleFlags_stays e p (queueTcp p { s with time := e.now, sendWindow := w })
    exact ⟨by simpa using h.dest, by simpa using h.connectSent, by simpa using h.remoteStart,
      by simpa using h.listen, h.syns⟩

theorem writeRst_early (ok : Bool) (s : Session) : Early (writeRst ok s).1 :=
  fun _ _ => .inr (.inr (writeRst_closed ok s))

theorem queueTcp_early (p : Packet) (s : Session) (h : Early s) : Early (queueTcp p s) := by
  simpa [Early] using h

theorem handleTcp_early (abi : Abi) (e : PacketEnv) (p : Packet) (s : Session) (h : Early s) :
    Early (handleTcp abi e p s).1 := by
  refine handleTcp_cases abi e p s ?_ ?_ ?_ ?_ ?_
  · exact fun _ => h
  · rintro t n rfl _ _ _
    exact queueTcp_early p { s with hostname := n } h
  · rintro t rfl _ _ _
    exact queueTcp_early p _ (writeRst_early _ _)
  · rintro t n rfl _ _ _ _
    exact queueTcp_early p _ fun _ _ => .inl rfl
  · rintro t n rfl _ hsent
    have hstay := handleSession_stays e p { s with hostname := n }
    intro hport hne
    rw [hstay.dest] at hport
    exact absurd (hstay.connectSent.trans (hsent hport)) hne

theorem forwardData_early (abi : Abi) (e : SocketEnv) (s : Session) (h : Early s) :
    Early (forwardData abi e s).1 :=
  forwardData_rule (fun _ t _ => Early t) abi e s [] (fun _ _ _ => id)
    (fun _ _ _ _ _ _ _ _ ht _ _ _ _ => ht) h

theorem ackForwarded_early (e : SocketEnv) (fwd : Bool) (s : Session) (h : Early s) :
    Early (ackForwarded e fwd s).1 := by
  have hack (t : Session) (ht : Early t) : Early (acked e t) := by
    unfold acked
    split
    · exact ht
    · exact fun _ _ => .inr (.inr closed_closing)
  refine ackForwarded_cases e fwd s (fun _ => h) ?_ ?_
  · rintro t rfl _ _ _
    exact hack _ h
  · rintro t rfl _ _
    exact hack _ h

/-- A proxied session that reads and is not closed is connected. -/
theorem Early.connected {s : Session} (h : Early s)
    (hst : s.state = .established ∨ s.state = .closeWait) (hport : proxied s.dest) :
    s.connectSent = .established := by
  by_contra hsent
  have := h hport hsent
  rcases hst with hst | hst <;> simp [hst] at this

theorem readSocket_early (e : SocketEnv) (s : Session) (h : Early s) :
    Early (readSocket e s).1 := by
  refine readSocket_cases e s h ?_ ?_ ?_ ?_ ?_
  · exact fun _ _ => h
  · exact fun _ _ _ _ => .inr (.inr closed_closing)
  · intro _ hst
    refine handleEof_cases e { s with time := e.now } hst ?_ ?_ ?_
    · exact fun _ _ _ => .inr (.inr closed_closing)
    · exact fun _ _ hport hsent => absurd (h.connected hst hport) hsent
    · exact fun _ _ _ _ => .inr (.inr closed_closing)
  · rintro _ _ t _ _ _ rfl _
    exact h
  · rintro _ _ t _ _ rfl _ _ _
    exact .inr (.inr closed_closing)

theorem relay_early (abi : Abi) (e : SocketEnv) (s : Session) (h : Early s) :
    Early (relay abi e s).1 :=
  readSocket_early e _ (ackForwarded_early e _ _ (forwardData_early abi e s h))

theorem step_early (abi : Abi) (s : Session) (i : Input) (h : Early s) :
    Early (step abi s i).1 := by
  cases i with
  | packet e p => exact handleTcp_early abi e p s h
  | socket e =>
    show Early (checkTcpSocket abi e s).1
    refine checkTcpSocket_cases abi e s ?_ ?_ ?_ ?_
    · exact fun _ => writeRst_early _ _
    · intro _ hst _
      refine readReply_cases e s hst ?_ ?_ ?_
      · exact fun _ _ => writeRst_early e.tun.rst s
      · exact fun _ _ _ => writeRst_early e.tun.rst s
      · exact fun _ _ _ _ hsent => absurd rfl hsent
    · intro _ hst _
      refine handshake_cases e s hst ?_ ?_
      · rintro t rfl _ _
        exact .inr (.inl rfl)
      · rintro t rfl _ _
        exact .inr (.inr closed_closing)
    · exact fun _ _ => relay_early abi e s h
  | monitor e =>
    refine monitorStep_cases abi e s h ?_
    rintro t ev outs ⟨ms, st, rfl, hst, -⟩
    rcases hst with rfl | rfl
    · exact h
    · exact fun _ _ => .inr (.inr closed_closing)
  | check e =>
    show Early (checkTcpSession e s).1
    refine checkTcpSession_cases e s ?_ ?_ ?_ ?_
    · exact fun _ => h
    · exact fun _ hst _ _ => .inr (.inr (.inr hst))
    · rintro fd del t rfl _ _ _ _
      exact .inr (.inr closed_close)
    · rintro fd del t rfl _ _ _ _ _
      exact .inr (.inr closed_close)

/-! ## The handshake -/

/-- After `n` handshakes: a session back in LISTEN shows that it had one, and so
does a proxied session that can still send a CONNECT request. -/
structure Once (s : Session) (n : Nat) : Prop where
  le : n ≤ 1
  listen : n = 1 → s.state = .listen → proxied s.dest ∧ s.connectSent = .sent ∧
    (s.remoteSeq ≠ s.remoteStart ∨ s.sent ≠ 0)
  notSent : n = 1 → proxied s.dest → s.connectSent = .notSent →
    s.socket < 0 ∨ s.state ≠ .close ∧ s.remoteSeq = s.remoteStart + 1 + BitVec.ofNat 32 s.sent

/-- An event that takes a session in LISTEN as connected finds it before its
handshake: nothing was counted for the client. -/
def FirstHandshake (s : Session) : Input → Prop
  | .socket e => s.state = .listen → e.ev.err = false → e.ev.inn = false →
      s.remoteSeq = s.remoteStart ∧ s.sent = 0
  | _ => True

instance (s : Session) : (i : Input) → Decidable (FirstHandshake s i)
  | .packet _ _ | .socket _ | .monitor _ | .check _ => by unfold FirstHandshake; infer_instance

theorem Once.writeRst {s : Session} {n : Nat} (h : Once s n) (ok : Bool) :
    Once (writeRst ok s).1 n := by
  refine writeRst_cases ok s (fun hl => ?_) (fun st hl hst hclose => ?_)
  · exact ⟨h.le, fun _ hs => by simp at hs, fun hn _ hs => by
      have := (h.listen hn hl).2.1
      simp_all⟩
  · refine ⟨h.le, fun _ hs => ?_, fun hn hport hs => ?_⟩
    · simp only at hs
      simp [hs] at hst
    · rcases h.notSent hn hport hs with hsock | ⟨hne, hseq⟩
      · exact .inl hsock
      · exact .inr ⟨fun hc => hne (hclose.mp hc), hseq⟩

theorem handleTcp_once (abi : Abi) (e : PacketEnv) (p : Packet) (s : Session) (n : Nat)
    (h : Once s n) :
    Once (handleTcp abi e p s).1 (n + total Out.syns (handleTcp abi e p s).2) := by
  refine handleTcp_cases abi e p s ?_ ?_ ?_ ?_ ?_
  · exact fun _ => h
  · rintro t host rfl _ _ _
    exact ⟨h.le, by simpa using h.listen, by simpa using h.notSent⟩
  · rintro t rfl _ _ _
    have hname : Once { s with hostname := packetHostname abi p s } n := ⟨h.le, h.listen, h.notSent⟩
    have hrst := hname.writeRst e.tun.rst
    have hsyns := (writeRst_stays e.tun.rst { s with hostname := packetHostname abi p s }).syns
    simp only [total_cons, hsyns, Out.syns]
    exact ⟨hrst.le, by simpa using hrst.listen, by simpa using hrst.notSent⟩
  · rintro t k rfl _ hport hsent hok
    have hopen := (sockSend_ok hok).1
    refine ⟨h.le, fun hn _ => ⟨by simpa using hport, ?_⟩, fun _ _ hs => by simp at hs⟩
    rcases h.notSent hn hport hsent with hsock | ⟨-, hseq⟩
    · omega
    · refine ⟨by simp, ?_⟩
      by_cases hz : s.sent = 0
      · left
        simp [hseq, hz]
      · right
        simpa using hz
  · rintro t host rfl _ hsent
    have hstay := handleSession_stays e p { s with hostname := host }
    rw [hstay.syns]
    refine ⟨h.le, fun hn hl => ?_, fun hn hport hs => ?_⟩
    · obtain ⟨hport, hs, -⟩ := h.listen hn (hstay.listen hl)
      simp [hsent hport] at hs
    · rw [hstay.dest] at hport
      rw [hstay.connectSent] at hs
      simp [hsent hport] at hs

/-- The acknowledgement number after a pass is what it was, and the bytes of the pass. -/
theorem passed_remoteSeq (s : Session) (g : Segment) (q : List Segment) (n : Nat)
    (h : n ≤ g.len - g.sent) (hseq : g.seq + BitVec.ofNat 32 g.sent = s.remoteSeq) :
    (passed s g q n h).remoteSeq = s.remoteSeq + BitVec.ofNat 32 n := by
  rw [← hseq]
  simp only [passed, BitVec.ofNat_add, BitVec.add_assoc]

theorem forwardData_once (abi : Abi) (e : SocketEnv) (s : Session) (n : Nat)
    (hst : s.state ≠ .listen) (h : Once s n) :
    (forwardData abi e s).1.state ≠ .listen ∧
      Once (forwardData abi e s).1 (n + total Out.syns (forwardData abi e s).2.2) := by
  have hrule := forwardData_rule
    (fun _ t tr => t.state ≠ .listen ∧ Once t (n + total Out.syns tr)) abi e s []
    (fun _ t tr ht => by simpa using ht)
    (fun i _ t tr g q k hk ht _ _ hseq _ => by
      have hnext := passed_remoteSeq t g q k hk hseq
      simp only [total_append, total_cons, Out.syns, total_nil, Nat.add_zero]
      refine ⟨ht.1, ht.2.le, fun _ hl => absurd hl ht.1, fun hn hport hs => ?_⟩
      rcases ht.2.notSent hn hport hs with hsock | ⟨hne, heq⟩
      · exact .inl hsock
      · refine .inr ⟨hne, ?_⟩
        rw [hnext, heq]
        simp only [passed, BitVec.ofNat_add, BitVec.add_assoc])
    ⟨hst, h⟩
  simpa using hrule

/-- A FIN is only confirmed in CLOSE_WAIT, where a proxied session is connected. -/
theorem ackForwarded_once (e : SocketEnv) (fwd : Bool) (s : Session) (n : Nat) (hearly : Early s)
    (hst : s.state ≠ .listen) (h : Once s n) :
    (ackForwarded e fwd s).1.state ≠ .listen ∧
      Once (ackForwarded e fwd s).1 (n + total Out.syns (ackForwarded e fwd s).2) := by
  have hopen : s.state = .closeWait → proxied s.dest → s.connectSent ≠ .notSent := by
    intro hcw hport hs
    simp [hearly.connected (.inr hcw) hport] at hs
  have hack (t : Session) (ht : t.state ≠ .listen) (h : Once t n) :
      (acked e t).state ≠ .listen ∧ Once (acked e t) n := by
    unfold acked
    split
    · exact ⟨ht, h.le, h.listen, h.notSent⟩
    · exact ⟨by simp, h.le, by simp, fun hn hport hs =>
        (h.notSent hn hport hs).imp_right fun hne => ⟨by simp, hne.2⟩⟩
  refine ackForwarded_cases e fwd s ?_ ?_ ?_
  · exact fun _ => ⟨hst, h.le, h.listen, h.notSent⟩
  · rintro t rfl _ _ hcw
    exact hack _ hst ⟨h.le, fun _ hl => absurd hl hst,
      fun _ hport hs => absurd hs (hopen hcw hport)⟩
  · rintro t rfl _ _
    exact hack _ hst ⟨h.le, h.listen, h.notSent⟩

theorem readSocket_once (e : SocketEnv) (s : Session) (n : Nat) (hearly : Early s) (h : Once s n) :
    Once (readSocket e s).1 (n + total Out.syns (readSocket e s).2) := by
  have hnone (hst : s.state = .established ∨ s.state = .closeWait) (hport : proxied s.dest)
      (hs : s.connectSent = .notSent) : False := by
    simp [hearly.connected hst hport] at hs
  have hnl (hst : s.state = .established ∨ s.state = .closeWait) : s.state ≠ .listen := by
    rcases hst with hst | hst <;> simp [hst]
  refine readSocket_cases e s h ?_ ?_ ?_ ?_ ?_
  · exact fun _ _ => ⟨h.le, h.listen, h.notSent⟩
  · exact fun _ hst => ⟨h.le, by simp, fun _ hport hs => (hnone hst hport hs).elim⟩
  · intro asked hst
    refine handleEof_cases e { s with time := e.now } hst ?_ ?_ ?_
    · exact fun _ => ⟨h.le, by simp, fun _ hport hs => (hnone hst hport hs).elim⟩
    · refine fun _ _ => ⟨h.le, fun _ hl => ?_, fun _ hport hs => (hnone hst hport hs).elim⟩
      simp only at hl
      split at hl <;> simp at hl
    · exact fun _ _ => ⟨h.le, by simp, fun _ hport hs => (hnone hst hport hs).elim⟩
  · rintro asked bytes t hst _ _ rfl _
    exact ⟨h.le, fun _ hl => absurd hl (hnl hst), fun _ hport hs => (hnone hst hport hs).elim⟩
  · rintro asked bytes t hst _ rfl _
    exact ⟨h.le, by simp, fun _ hport hs => (hnone hst hport hs).elim⟩

theorem relay_once (abi : Abi) (e : SocketEnv) (s : Session) (n : Nat) (hearly : Early s)
    (hst : s.state ≠ .listen) (h : Once s n) :
    Once (relay abi e s).1 (n + total Out.syns (relay abi e s).2) := by
  have hf := forwardData_once abi e s n hst h
  have ha :=
    ackForwarded_once e (forwardData abi e s).2.1 _ _ (forwardData_early abi e s hearly) hf.1 hf.2
  have hr := readSocket_once e _ _
    (ackForwarded_early e (forwardData abi e s).2.1 _ (forwardData_early abi e s hearly)) ha.2
  unfold relay
  simp only [total_append, ← Nat.add_assoc]
  exact hr

theorem drained_recv {e : SocketEnv} {o : Out} (h : o ∈ drained e) :
    ∃ b, o = .recv .listen 512 b := by
  unfold drained at h
  obtain ⟨c, -, rfl⟩ := List.mem_map.mp h
  exact ⟨some c, rfl⟩

theorem total_drained (f : Out → Nat) (hf : ∀ st n b, f (.recv st n b) = 0) (e : SocketEnv) :
    total f (drained e) = 0 := by
  refine total_zero f _ fun o ho => ?_
  obtain ⟨b, rfl⟩ := drained_recv ho
  exact hf _ _ _

/-- A session in LISTEN whose numbers are the initial ones had no handshake. -/
theorem Once.none {s : Session} {n : Nat} (h : Once s n) (hst : s.state = .listen)
    (hfirst : s.remoteSeq = s.remoteStart ∧ s.sent = 0) : n = 0 := by
  have hle := h.le
  by_contra hn
  have hdone := (h.listen (by omega) hst).2.2
  simp [hfirst.1, hfirst.2] at hdone

theorem readReply_once (e : SocketEnv) (s : Session) (n : Nat) (hst : s.state = .listen)
    (h : Once s n) :
    Once (readReply e s).1 (n + total Out.syns (readReply e s).2) := by
  have hrst := h.writeRst e.tun.rst
  have hsyns := (writeRst_stays e.tun.rst s).syns
  refine readReply_cases e s hst ?_ ?_ ?_
  · intro _ _
    simpa [hsyns] using hrst
  · intro _ _ _
    simpa [hsyns] using hrst
  · intro _ _ _
    simp only [total_cons, Out.syns, total_drained Out.syns (fun _ _ _ => rfl)]
    exact ⟨h.le, by simp, by simp⟩

theorem handshake_once (e : SocketEnv) (s : Session) (hst : s.state = .listen)
    (hfirst : s.remoteSeq = s.remoteStart ∧ s.sent = 0) :
    Once (handshake e s).1 (0 + total Out.syns (handshake e s).2) := by
  refine handshake_cases e s hst ?_ ?_
  · rintro t rfl
    exact ⟨by simp [writeTcp], by simp, fun _ _ _ => .inr (by simp [hfirst.1, hfirst.2])⟩
  · rintro t rfl
    exact ⟨by simp [writeTcp], by simp, fun _ _ _ => .inr (by simp [hfirst.1, hfirst.2])⟩

theorem check_once (e : CheckEnv) (s : Session) (n : Nat) (h : Once s n) :
    Once (checkTcpSession e s).1 (n + total Out.syns (checkTcpSession e s).2.2) := by
  have hclose : total Out.syns (if 0 ≤ s.socket then [.close s.socket] else []) = 0 := by
    split <;> simp
  refine checkTcpSession_cases e s ?_ ?_ ?_ ?_
  · exact fun _ => h
  · exact fun del hst => ⟨h.le, fun _ hl => by simp [hst] at hl, fun hn hport hs =>
      .inl ((h.notSent hn hport hs).resolve_right fun hne => hne.1 hst)⟩
  · rintro fd del t rfl _ hfd
    rw [hclose]
    exact ⟨h.le, by simp, fun _ _ _ => .inl (hfd ▸ closedFd_neg _)⟩
  · rintro fd del t rfl _ _ hfd
    simp only [total_cons, hclose, Out.syns, writeTcp]
    exact ⟨h.le, by simp, fun _ _ _ => .inl (hfd ▸ closedFd_neg _)⟩

theorem step_once (abi : Abi) (s : Session) (n : Nat) (i : Input) (hearly : Early s) (h : Once s n)
    (hi : FirstHandshake s i) : Once (step abi s i).1 (n + total Out.syns (step abi s i).2) := by
  cases i with
  | packet e p => exact handleTcp_once abi e p s n h
  | socket e =>
    show Once (checkTcpSocket abi e s).1 (n + total Out.syns (checkTcpSocket abi e s).2)
    refine checkTcpSocket_cases abi e s ?_ ?_ ?_ ?_
    · intro _
      have htime : Once { s with time := e.now } n := ⟨h.le, h.listen, h.notSent⟩
      rw [(writeRst_stays e.tun.rst { s with time := e.now }).syns]
      exact htime.writeRst e.tun.rst
    · exact fun _ hst _ => readReply_once e s n hst h
    · intro herr hst hinn
      have hfirst := hi hst herr hinn
      rw [h.none hst hfirst]
      exact handshake_once e s hst hfirst
    · exact fun _ hst => relay_once abi e s n hearly hst h
  | monitor e =>
    refine monitorStep_cases abi e s h ?_
    rintro t ev outs ⟨ms, st, rfl, hst, houts⟩
    have hsyns : total Out.syns outs = 0 := by
      rcases houts with houts | ⟨-, houts⟩ <;> simp [houts, writeTcp]
    rw [hsyns]
    rcases hst with rfl | rfl
    · exact ⟨h.le, h.listen, h.notSent⟩
    · exact ⟨h.le, by simp, fun hn hport hs => (h.notSent hn hport hs).imp_right fun hne =>
        ⟨by simp, hne.2⟩⟩
  | check e => exact check_once e s n h

/-! ## The two sequence numbers -/

/-- Whether the client's FIN is confirmed, as the state tells. -/
def finConfirmed (s : Session) : Nat :=
  match s.state with
  | .lastAck => 1
  | .closeWait => if s.forward = [] then 1 else 0
  | _ => 0

/-- Whether a FIN was written, as the state tells. -/
def finWritten (s : Session) : Nat :=
  match s.state with
  | .finWait1 | .lastAck => 1
  | _ => 0

structure Books (s : Session) (tr : List Out) : Prop where
  remoteSeq : s.remoteSeq = s.remoteStart +
    BitVec.ofNat 32 (total Out.syns tr + total Out.marks tr + total Out.finsConfirmed tr)
  localSeq : s.localSeq = s.localStart +
    BitVec.ofNat 32 (total Out.syns tr + total Out.payload tr + total Out.finsWritten tr)
  fins : total Out.finsConfirmed tr = finConfirmed s
  written : total Out.finsWritten tr = finWritten s

/-- A closed session is not held to its books. -/
def Balanced (s : Session) (tr : List Out) : Prop := ¬ s.state.closed → Books s tr

theorem Balanced.closed {s : Session} {tr : List Out} (h : s.state.closed) : Balanced s tr :=
  fun hopen => absurd h hopen

/-- Outputs that count for nothing. -/
def Neutral (o : Out) : Prop :=
  o.syns = 0 ∧ o.marks = 0 ∧ o.finsConfirmed = 0 ∧ o.payload = 0 ∧ o.finsWritten = 0

theorem Books.neutral {s : Session} {tr : List Out} (h : Books s tr) (outs : List Out)
    (ho : ∀ o ∈ outs, Neutral o) :
    Books s (tr ++ outs) := by
  have h1 := total_zero Out.syns outs fun o h => (ho o h).1
  have h2 := total_zero Out.marks outs fun o h => (ho o h).2.1
  have h3 := total_zero Out.finsConfirmed outs fun o h => (ho o h).2.2.1
  have h4 := total_zero Out.payload outs fun o h => (ho o h).2.2.2.1
  have h5 := total_zero Out.finsWritten outs fun o h => (ho o h).2.2.2.2
  exact ⟨by simpa [h1, h2, h3] using h.remoteSeq, by simpa [h1, h4, h5] using h.localSeq,
    by simpa [h3] using h.fins, by simpa [h5] using h.written⟩

theorem neutral_ack (st : State) (s : Session) (ok : Bool) :
    Neutral (.tun st (writeTcp s [] false true false false) ok) := by
  cases ok <;> exact ⟨rfl, rfl, rfl, rfl, rfl⟩

/-- Queueing outside CLOSE_WAIT. -/
theorem Books.queue {s : Session} {tr : List Out} (h : Books s tr) (p : Packet)
    (hst : s.state ≠ .closeWait) : Books (queueTcp p s) tr := by
  refine ⟨by simpa using h.remoteSeq, by simpa using h.localSeq, ?_, ?_⟩
  · rw [h.fins]
    unfold finConfirmed
    cases hs : s.state <;> simp_all
  · simpa [finWritten] using h.written

theorem handleFin_books (e : PacketEnv) (s : Session) (tr : List Out) (h : Books s tr) :
    Balanced (handleFin e s).1 (tr ++ (handleFin e s).2) := by
  refine handleFin_cases e s ?_ ?_ ?_ ?_
  · exact fun _ => by simpa using h
  · intro hst hq _
    have hfins := h.fins
    have hwritten := h.written
    refine ⟨by simpa using h.remoteSeq, by simpa using h.localSeq, ?_, ?_⟩
    · simpa [finConfirmed, hst, hq] using hfins
    · simpa [finWritten, hst] using hwritten
  · rintro t rfl hst hq
    have hfins := h.fins
    have hwritten := h.written
    cases hok : e.tun.ack
    · exact .closed (by simp)
    · intro _
      simp only [finConfirmed, finWritten, hst] at hfins hwritten
      refine ⟨?_, ?_, ?_, ?_⟩
      · simp [h.remoteSeq, writeTcp, hfins, BitVec.ofNat_add, BitVec.add_assoc]
      · simpa [writeTcp] using h.localSeq
      · simp [finConfirmed, hq, hfins]
      · simp [finWritten, hwritten, writeTcp]
  · rintro t rfl hst
    refine .closed ?_
    cases e.tun.ack <;> simp

theorem handleFlags_books (e : PacketEnv) (p : Packet) (s : Session) (tr : List Out)
    (h : Books s tr) :
    Balanced (handleFlags e p s).1 (tr ++ (handleFlags e p s).2) := by
  refine handleFlags_cases e p s ?_ ?_ ?_ ?_ ?_ ?_
  · exact fun _ => by simpa using h
  · exact .closed (by simp)
  · exact fun _ _ _ _ => handleFin_books e s tr h
  · rintro st rfl _ hopen
    have hfins := h.fins
    have hwritten := h.written
    refine ⟨by simpa using h.remoteSeq, by simpa using h.localSeq, ?_, ?_⟩
    · cases hst : s.state <;> simp_all [finConfirmed]
    · cases hst : s.state <;> simp_all [finWritten]
  · intro _ _ _
    rw [List.append_nil]
    exact ⟨h.remoteSeq, h.localSeq, h.fins, h.written⟩
  · exact fun _ _ => .closed (writeRst_closed _ s)

theorem handleSession_books (e : PacketEnv) (p : Packet) (s : Session) (tr : List Out)
    (h : Books s tr) :
    Balanced (handleSession e p s).1 (tr ++ (handleSession e p s).2) := by
  have htime (w : U32) : Books { s with time := e.now, sendWindow := w } tr :=
    ⟨h.remoteSeq, h.localSeq, h.fins, h.written⟩
  refine handleSession_cases e p s ?_ ?_ ?_ ?_
  · exact fun _ => .closed (writeRst_closed _ s)
  · exact fun t _ _ _ _ _ => .closed (writeRst_closed _ t)
  · rintro t w rfl _ _
    exact handleFlags_books e p _ tr (htime w)
  · rintro t w rfl _ _ _ hst
    exact handleFlags_books e p _ tr ((htime w).queue p hst)

theorem handleTcp_books (abi : Abi) (e : PacketEnv) (p : Packet) (s : Session) (tr : List Out)
    (hearly : Early s) (hopen : ¬ s.state.closed) (h : Books s tr) :
    Balanced (handleTcp abi e p s).1 (tr ++ (handleTcp abi e p s).2) := by
  have hstate (hport : proxied s.dest) (hsent : s.connectSent ≠ .established) :
      s.state = .listen ∨ s.state = .synRecv := by
    rcases hearly hport hsent with hst | hst | hst
    · exact .inl hst
    · exact .inr hst
    · exact absurd hst hopen
  refine handleTcp_cases abi e p s ?_ ?_ ?_ ?_ ?_
  · exact fun _ _ => by simpa using h
  · rintro t host rfl _ hport hsent _
    have hname : Books { s with hostname := host } tr :=
      ⟨h.remoteSeq, h.localSeq, h.fins, h.written⟩
    have hne : s.state ≠ .closeWait := by
      rcases hstate hport (by simp [hsent]) with hst | hst <;> simp [hst]
    simpa using hname.queue p hne
  · rintro t rfl _ _ _
    exact .closed (by simpa using writeRst_closed _ _)
  · rintro t n rfl _ hport hsent _ _
    have hlisten : Books { s with
        hostname := packetHostname abi p s, connectSent := .sent, state := .listen } tr := by
      have hfins := h.fins
      have hwritten := h.written
      refine ⟨h.remoteSeq, h.localSeq, ?_, ?_⟩
      · rcases hstate hport (by simp [hsent]) with hst | hst <;>
          simpa [finConfirmed, hst] using hfins
      · rcases hstate hport (by simp [hsent]) with hst | hst <;>
          simpa [finWritten, hst] using hwritten
    exact (hlisten.queue p (by simp)).neutral _ (by simp [Neutral])
  · rintro t host rfl _ _
    exact handleSession_books e p _ tr ⟨h.remoteSeq, h.localSeq, h.fins, h.written⟩

/-- Inside the forward loop: a session in CLOSE_WAIT whose last segment has just gone
has its FIN still to be confirmed. -/
structure Forwarding (fwd : Bool) (s : Session) (tr : List Out) : Prop where
  remoteSeq : s.remoteSeq = s.remoteStart +
    BitVec.ofNat 32 (total Out.syns tr + total Out.marks tr + total Out.finsConfirmed tr)
  localSeq : s.localSeq = s.localStart +
    BitVec.ofNat 32 (total Out.syns tr + total Out.payload tr + total Out.finsWritten tr)
  fins : total Out.finsConfirmed tr = if fwd ∧ s.state = .closeWait then 0 else finConfirmed s
  written : total Out.finsWritten tr = finWritten s

theorem Forwarding.pass {fwd : Bool} {s : Session} {tr : List Out} (h : Forwarding fwd s tr)
    {g : Segment} {q : List Segment} {n : Nat} (hn : n ≤ g.len - g.sent) (hq : s.forward = g :: q)
    (hseq : g.seq + BitVec.ofNat 32 g.sent = s.remoteSeq) {st : State} {p : Patch} {r : SendResult}
    (hmark : n = marked r (g.len - g.sent)) :
    Forwarding true (passed s g q n hn) (tr ++ [.forward st g.rest p r.count]) := by
  have hnext := passed_remoteSeq s g q n hn hseq
  have hmarks : (Out.forward st g.rest p r.count).marks = n := by
    rw [marks_forward, Segment.length_rest, hmark]
  have hzero : s.state = .closeWait → total Out.finsConfirmed tr = 0 := by
    intro hst
    have hfins := h.fins
    simpa [finConfirmed, hst, hq] using hfins
  refine ⟨?_, ?_, ?_, ?_⟩
  · rw [hnext, h.remoteSeq]
    simp only [total_append, total_cons, total_nil, hmarks, Out.syns, Out.finsConfirmed, passed,
      BitVec.add_assoc, ← BitVec.ofNat_add]
    congr 2
    omega
  · simpa [passed] using h.localSeq
  · by_cases hst : s.state = .closeWait
    · simpa [passed, hst] using hzero hst
    · have hfins := h.fins
      simp only [passed, hst, and_false, if_false] at hfins ⊢
      simp only [total_append, total_cons, total_nil, Out.finsConfirmed, Nat.add_zero, hfins]
      unfold finConfirmed
      cases hs : s.state <;> simp_all
  · simpa [passed, finWritten] using h.written

theorem forwardData_books (abi : Abi) (e : SocketEnv) (s : Session) (tr : List Out)
    (h : Books s tr) :
    Forwarding (forwardData abi e s).2.1 (forwardData abi e s).1
      (tr ++ (forwardData abi e s).2.2) := by
  refine forwardData_rule Forwarding abi e s tr ?_ ?_ ?_
  · intro fwd t tr ht
    exact ⟨by simpa using ht.remoteSeq, by simpa using ht.localSeq, by simpa using ht.fins,
      by simpa using ht.written⟩
  · intro i fwd t tr g q n hn ht _ hq hseq hmark
    exact ht.pass hn hq hseq hmark
  · exact ⟨h.remoteSeq, h.localSeq, by simpa using h.fins, h.written⟩

theorem ackForwarded_books (e : SocketEnv) (fwd : Bool) (s : Session) (tr : List Out)
    (h : Forwarding fwd s tr) :
    Balanced (ackForwarded e fwd s).1 (tr ++ (ackForwarded e fwd s).2) := by
  have hack (t : Session) (tr' : List Out) (ht : Books t tr') :
      Balanced (acked e t)
        (tr' ++ [.tun t.state (writeTcp t [] false true false false) e.tun.ack]) := by
    have hb := ht.neutral [.tun t.state (writeTcp t [] false true false false) e.tun.ack]
      (by simpa using neutral_ack _ _ _)
    unfold acked
    split
    · exact fun _ => ⟨hb.remoteSeq, hb.localSeq, hb.fins, hb.written⟩
    · exact .closed (by simp)
  have hfins := h.fins
  refine ackForwarded_cases e fwd s ?_ ?_ ?_
  · intro hidle _
    have hfwd : fwd = false := by
      by_contra hf
      exact hidle (.inl (by simpa using hf))
    rw [List.append_nil]
    simp only [hfwd, Bool.false_eq_true, false_and, if_false] at hfins
    exact ⟨h.remoteSeq, h.localSeq, hfins, h.written⟩
  · rintro t rfl hfwd hq hst
    have hb :
      Books { s with recvWindow := getReceiveWindow s e.rcvbuf, remoteSeq := s.remoteSeq + 1 }
        (tr ++ [.remoteFin]) := by
      refine ⟨?_, by simpa using h.localSeq, ?_, by simpa [finWritten] using h.written⟩
      · simp [h.remoteSeq, hfins, hfwd, hst, BitVec.ofNat_add, BitVec.add_assoc]
      · simp [hfins, hfwd, hst, finConfirmed, hq]
    simpa using hack _ _ hb
  · rintro t rfl _ hnot
    refine hack _ _ ⟨h.remoteSeq, h.localSeq, ?_, h.written⟩
    rw [hfins]
    split
    · rename_i hcw
      have hq : s.forward ≠ [] := fun hq => hnot ⟨hcw.1, hq, hcw.2⟩
      simp [finConfirmed, hcw.2, hq]
    · rfl

theorem readSocket_books (e : SocketEnv) (s : Session) (tr : List Out) (h : Balanced s tr) :
    Balanced (readSocket e s).1 (tr ++ (readSocket e s).2) := by
  have hbooks (hst : s.state = .established ∨ s.state = .closeWait) : Books s tr :=
    h (by rcases hst with hst | hst <;> simp [hst])
  refine readSocket_cases e s ?_ ?_ ?_ ?_ ?_ ?_
  · simpa using h
  · intro asked hst _
    have hb := hbooks hst
    have htime : Books { s with time := e.now } tr :=
      ⟨hb.remoteSeq, hb.localSeq, hb.fins, hb.written⟩
    exact htime.neutral [.recv s.state asked none] (by simp [Neutral])
  · exact fun _ _ => .closed (by simp)
  · intro asked hst
    refine handleEof_cases e { s with time := e.now } hst ?_ ?_ ?_
    · exact fun _ => .closed (by simp)
    · intro hq _ _
      have hb := hbooks hst
      have hfins := hb.fins
      have hwritten := hb.written
      refine ⟨by simpa [writeTcp] using hb.remoteSeq, ?_, ?_, ?_⟩
      · rcases hst with hst | hst <;> simp [finWritten, hst] at hwritten <;>
          simp [writeTcp, hb.localSeq, hwritten, BitVec.ofNat_add, BitVec.add_assoc]
      · simp only at hq
        rcases hst with hst | hst <;> simp_all [finConfirmed]
      · rcases hst with hst | hst <;> simp_all [finWritten, writeTcp]
    · exact fun _ _ => .closed (by simp)
  · rintro asked bytes t hst _ _ rfl _ _
    have hb := hbooks hst
    refine ⟨by simpa [writeTcp] using hb.remoteSeq,
      ?_, by simpa [writeTcp, finConfirmed] using hb.fins, by simpa [writeTcp, finWritten]
        using hb.written⟩
    simp only [hb.localSeq, writeTcp, total_append, total_cons, total_nil, Out.syns, Out.payload,
      Out.finsWritten, BitVec.add_assoc, ← BitVec.ofNat_add]
    simp only [Bool.false_eq_true, if_false]
    congr 2
    omega
  · exact fun _ _ _ _ _ _ _ => .closed (by simp)

/-- In LISTEN nothing is confirmed or written yet, so a change of state alone keeps
the books. -/
theorem readReply_books (e : SocketEnv) (s : Session) (tr : List Out) (hst : s.state = .listen)
    (h : Books s tr) : Balanced (readReply e s).1 (tr ++ (readReply e s).2) := by
  refine readReply_cases e s hst ?_ ?_ ?_
  · exact fun _ _ => .closed (writeRst_closed e.tun.rst s)
  · exact fun _ _ _ => .closed (writeRst_closed e.tun.rst s)
  · intro bytes _ _ _
    have hb : Books { s with connectSent := .established, state := .established } tr :=
      ⟨h.remoteSeq, h.localSeq, by simpa [finConfirmed, hst] using h.fins,
        by simpa [finWritten, hst] using h.written⟩
    refine hb.neutral _ fun o ho => ?_
    rcases List.mem_cons.mp ho with rfl | ho
    · exact ⟨rfl, rfl, rfl, rfl, rfl⟩
    · obtain ⟨b, rfl⟩ := drained_recv ho
      exact ⟨rfl, rfl, rfl, rfl, rfl⟩

theorem handshake_books (e : SocketEnv) (s : Session) (tr : List Out) (hst : s.state = .listen)
    (h : Books s tr) : Balanced (handshake e s).1 (tr ++ (handshake e s).2) := by
  refine handshake_cases e s hst ?_ ?_
  · rintro t rfl _
    have hfins := h.fins
    have hwritten := h.written
    simp only [finConfirmed, finWritten, hst] at hfins hwritten
    refine ⟨?_, ?_, by simp [finConfirmed, hfins], by simp [finWritten, hwritten, writeTcp]⟩
    · simp only [h.remoteSeq, hfins, writeTcp, total_append, total_cons, total_nil,
        Out.syns, Out.marks, Out.finsConfirmed, if_true, BitVec.add_assoc, Nat.add_zero]
      rw [show (1 : U32) = BitVec.ofNat 32 1 from rfl, ← BitVec.ofNat_add]
      congr 2
      omega
    · simp only [h.localSeq, hwritten, writeTcp, total_append, total_cons, total_nil, Out.syns,
        Out.payload, Out.finsWritten, if_true, BitVec.add_assoc, Nat.add_zero, List.length_nil,
        Bool.false_eq_true, if_false]
      rw [show (1 : U32) = BitVec.ofNat 32 1 from rfl, ← BitVec.ofNat_add]
      congr 2
      omega
  · exact fun _ _ => .closed (by simp)

theorem step_books (abi : Abi) (s : Session) (i : Input) (tr : List Out) (hearly : Early s)
    (hopen : ¬ s.state.closed) (h : Books s tr) :
    Balanced (step abi s i).1 (tr ++ (step abi s i).2) := by
  cases i with
  | packet e p => exact handleTcp_books abi e p s tr hearly hopen h
  | socket e =>
    show Balanced (checkTcpSocket abi e s).1 (tr ++ (checkTcpSocket abi e s).2)
    refine checkTcpSocket_cases abi e s ?_ ?_ ?_ ?_
    · exact fun _ => .closed (writeRst_closed _ _)
    · exact fun _ hst _ => readReply_books e s tr hst h
    · exact fun _ hst _ => handshake_books e s tr hst h
    · intro _ _
      have hf := forwardData_books abi e s tr h
      have ha := ackForwarded_books e _ _ _ hf
      have hr := readSocket_books e _ _ ha
      simpa [relay, List.append_assoc] using hr
  | monitor e =>
    refine monitorStep_cases abi e s (fun _ => by simpa using h) ?_
    rintro t ev outs ⟨ms, st, rfl, hst, houts⟩
    rcases hst with rfl | rfl
    · have hb : Books { s with lastKeepAlive := ms, ev := ev } tr :=
        ⟨h.remoteSeq, h.localSeq, h.fins, h.written⟩
      intro _
      refine hb.neutral _ fun o ho => ?_
      rcases houts with houts | ⟨-, houts⟩
      · simp [houts] at ho
      · simp only [houts, List.mem_singleton] at ho
        exact ho ▸ neutral_ack _ _ _
    · exact .closed (by simp)
  | check e =>
    show Balanced (checkTcpSession e s).1 (tr ++ (checkTcpSession e s).2.2)
    refine checkTcpSession_cases e s ?_ ?_ ?_ ?_
    · exact fun _ _ => by simpa using h
    · exact fun _ hst => .closed (.inr hst)
    · rintro fd del t rfl _ _
      exact .closed (by simp)
    · rintro fd del t rfl _ _ _
      exact .closed (by simp)

/-! ## Runs -/

/-- What the sequence numbers of a session say after its handshake. -/
def Accounted (s : Session) (tr : List Out) : Prop :=
  s.remoteSeq - s.remoteStart =
      1 + BitVec.ofNat 32 (total Out.marks tr) + (if Out.remoteFin ∈ tr then 1 else 0) ∧
    s.localSeq - s.localStart =
      1 + BitVec.ofNat 32 (total Out.payload tr) + (if total Out.finsWritten tr = 0 then 0 else 1)

instance (s : Session) (tr : List Out) : Decidable (Accounted s tr) :=
  inferInstanceAs (Decidable (_ ∧ _))

/-- At most one handshake, and from it on the sequence numbers are accounted for
in every state that the session reaches without having been closed. -/
def KeepsAccounts (abi : Abi) (s : Session) (is : List Input) : Prop :=
  total Out.syns (run (step abi) s is).2 ≤ 1 ∧
    ∀ before after, is = before ++ after → total Out.syns (run (step abi) s before).2 = 1 →
      Always (step abi) (fun t => ¬ t.state.closed) s before →
      Accounted (run (step abi) s before).1 (run (step abi) s before).2

theorem newSession_early (e : SynEnv) (p : Packet) : Early (newSession e p) := fun _ _ => .inl rfl

theorem newSession_books (e : SynEnv) (p : Packet) : Books (newSession e p) [] :=
  ⟨by simp, by simp, rfl, rfl⟩

theorem mem_remoteFin (tr : List Out) : Out.remoteFin ∈ tr ↔ total Out.finsConfirmed tr ≠ 0 := by
  induction tr with
  | nil => simp
  | cons o tr ih => cases o <;> simp [ih]

/-- With one handshake made, the books are the account. -/
theorem Books.accounted {s : Session} {tr : List Out} (h : Books s tr)
    (hone : total Out.syns tr = 1) :
    Accounted s tr := by
  have hfin : total Out.finsConfirmed tr ≤ 1 := by
    rw [h.fins]
    unfold finConfirmed
    repeat' split
    all_goals omega
  have hwritten : total Out.finsWritten tr ≤ 1 := by
    rw [h.written]
    unfold finWritten
    split <;> omega
  have hcancel (a b : U32) : a + b - a = b := by rw [BitVec.add_comm, BitVec.add_sub_cancel]
  constructor
  · simp only [h.remoteSeq, hone, hcancel, BitVec.ofNat_add, mem_remoteFin]
    rcases Nat.le_one_iff_eq_zero_or_eq_one.mp hfin with hf | hf <;> simp [hf]
  · rw [h.localSeq, hone, hcancel, BitVec.ofNat_add, BitVec.ofNat_add]
    rcases Nat.le_one_iff_eq_zero_or_eq_one.mp hwritten with hf | hf <;> simp [hf]

/-- A run that takes the socket as connected only before its handshake makes one
handshake at most and keeps the account. -/
theorem run_keeps_accounts (abi : Abi) (e : SynEnv) (p : Packet) (is : List Input)
    (h : Along (step abi) FirstHandshake (newSession e p) is) :
    KeepsAccounts abi (newSession e p) is := by
  constructor
  · have honce := run_invariant (step abi) FirstHandshake
      (fun s tr => Early s ∧ Once s (total Out.syns tr))
      (fun s tr i hs hi => ⟨step_early abi s i hs.1, by
        rw [total_append]
        exact step_once abi s _ i hs.1 hs.2 hi⟩)
      is (newSession e p) ⟨newSession_early e p, by simp, by simp, by simp⟩ h
    exact honce.2.le
  · rintro before after rfl hone halways
    obtain ⟨hopen, hlast⟩ := (always_iff _ _ _ _).mp halways
    have hbooks := run_invariant (step abi) (fun t _ => ¬ t.state.closed)
      (fun s tr => Early s ∧ Balanced s tr)
      (fun s tr i hs hi => ⟨step_early abi s i hs.1, step_books abi s i tr hs.1 hi (hs.2 hi)⟩)
      before (newSession e p) ⟨newSession_early e p, fun _ => newSession_books e p⟩ hopen
    exact (hbooks.2 hlast).accounted hone

/-- To port 443: the handshake, the client's acknowledgement that triggers the CONNECT
request, and the reply of the proxy. -/
theorem run_keeps_accounts_connect :
    KeepsAccounts .arm64V8a (newSession (plainSyn 443) (synPacket []))
      [.socket writable, .monitor plainMonitor, .packet plainEnv (plainPacket 1001 5001 []),
        .monitor plainMonitor, .socket (readable (ascii "HTTP/1.0 200"))] :=
  run_keeps_accounts .arm64V8a _ _ _ (by decide +kernel)

/-- To port 80 the monitor waits for a writable socket, and the handshake is made again. -/
theorem handshake_repeated :
    ¬ KeepsAccounts .arm64V8a (newSession (plainSyn 80) (synPacket []))
      [.socket writable, .monitor plainMonitor, .packet plainEnv (plainPacket 1001 5001 []),
        .monitor plainMonitor, .socket writable] := by
  rintro ⟨h, -⟩
  exact absurd h (by decide +kernel)

end PdaNetClient.Tcp
