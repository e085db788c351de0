import PdaNetClient.TcpSteps

/-!
# Closed sessions

What a session in CLOSING or CLOSE may still do. Two branches run before or
without a look at the state: the CONNECT request of `handle_tcp`, and the forward
loop with its acknowledgement. A closed session is silent on exactly the events
that take neither.
-/
namespace PdaNetClient.Tcp

open Http Runs

set_option autoImplicit false

/-- What a closed session is allowed to emit. -/
def Silent : Out → Prop
  | .tun st p _ => st.closed → p.rst = true
  | .connect st _ _ => ¬ st.closed
  | .forward st _ _ _ => ¬ st.closed
  | _ => True

instance : (o : Out) → Decidable (Silent o)
  | .tun _ _ _ | .connect _ _ _ | .forward _ _ _ _ | .recv _ _ _ | .remoteFin | .close
      _ | .crash => by
    unfold Silent
    infer_instance

/-- No output of a run breaks the silence, and a closed session stays closed to
the end of the run. -/
def StaysClosed (abi : Abi) (s : Session) (is : List Input) : Prop :=
  (∀ o ∈ (run (step abi) s is).2, Silent o) ∧
    ∀ before after, is = before ++ after → (run (step abi) s before).1.state.closed →
      (run (step abi) s is).1.state.closed

/-- The events on a closed session that take neither branch: a packet that needs
no CONNECT, and a socket event whose forward loop does nothing and whose receive
window does not open. -/
def LeavesClosed (s : Session) : Input → Prop
  | .packet _ p => s.state.closed → proxied s.dest → s.connectSent = .notSent → p.urg = true
  | .socket e => s.state.closed → e.ev.err = false →
      (e.ev.out = true → ∀ g ∈ s.forward.head?,
        ¬ canForward s g (receiveBuffer s.socket e.sndbuf)) ∧
        ¬ (s.recvWindow = 0 ∧ 0 < getReceiveWindow s e.rcvbuf)
  | _ => True

instance (s : Session) : (i : Input) → Decidable (LeavesClosed s i)
  | .packet _ _ | .socket _ | .monitor _ | .check _ => by unfold LeavesClosed; infer_instance

/-- A step keeps a closed session closed, and is silent on it. -/
def Quiet (s : Session) (r : Session × List Out) : Prop :=
  (s.state.closed → r.1.state.closed) ∧ ∀ o ∈ r.2, Silent o

@[simp] theorem closed_closing : State.closing.closed := .inl rfl
@[simp] theorem closed_close : State.close.closed := .inr rfl
@[simp] theorem not_closed_listen : ¬ State.listen.closed := by decide
@[simp] theorem not_closed_synRecv : ¬ State.synRecv.closed := by decide
@[simp] theorem not_closed_established : ¬ State.established.closed := by decide
@[simp] theorem not_closed_closeWait : ¬ State.closeWait.closed := by decide
@[simp] theorem not_closed_finWait1 : ¬ State.finWait1.closed := by decide
@[simp] theorem not_closed_lastAck : ¬ State.lastAck.closed := by decide

theorem writeRst_quiet (ok : Bool) (s t : Session) : Quiet t (writeRst ok s) := by
  refine ⟨fun _ => writeRst_closed ok s, ?_⟩
  simp [writeRst, Silent, writeTcp]

/-! ## A segment from tun -/

theorem handleFin_quiet (e : PacketEnv) (s : Session) (h : ¬ s.state.closed) :
    Quiet s (handleFin e s) := by
  refine handleFin_cases e s ?_ ?_ ?_ ?_
  · exact ⟨id, by simp⟩
  · exact fun _ _ => ⟨fun hc => absurd hc h, by simp⟩
  · exact fun t _ _ _ => ⟨fun hc => absurd hc h, by simp [Silent]⟩
  · exact fun t _ _ => ⟨fun hc => absurd hc h, by simp [Silent]⟩

theorem handleFlags_quiet (e : PacketEnv) (p : Packet) (s : Session) (h : ¬ s.state.closed) :
    Quiet s (handleFlags e p s) := by
  refine handleFlags_cases e p s ?_ ?_ ?_ ?_ ?_ ?_
  · exact ⟨id, by simp⟩
  · exact ⟨fun _ => closed_closing, by simp⟩
  · exact fun _ _ _ _ => handleFin_quiet e s h
  · exact fun st _ _ => ⟨fun hc => absurd hc h, by simp⟩
  · exact fun _ _ => ⟨id, by simp⟩
  · exact fun _ _ => writeRst_quiet _ _ _

theorem handleSession_quiet (e : PacketEnv) (p : Packet) (s : Session) :
    Quiet s (handleSession e p s) := by
  refine handleSession_cases e p s ?_ ?_ ?_ ?_
  · exact fun _ => writeRst_quiet _ _ _
  · exact fun t w _ _ _ _ => writeRst_quiet _ _ _
  · rintro t w rfl hopen _
    exact handleFlags_quiet e p { s with time := e.now, sendWindow := w } hopen
  · rintro t w rfl hopen _ _ _
    have h := handleFlags_quiet e p (queueTcp p { s with time := e.now, sendWindow := w })
      (by simpa using hopen)
    exact ⟨fun hc => absurd hc hopen, h.2⟩

theorem handleTcp_quiet (abi : Abi) (e : PacketEnv) (p : Packet) (s : Session)
    (h : s.state.closed → proxied s.dest → s.connectSent = .notSent → p.urg = true) :
    Quiet s (handleTcp abi e p s) := by
  refine handleTcp_cases abi e p s ?_ ?_ ?_ ?_ ?_
  · exact fun _ => ⟨id, by simp⟩
  · rintro t n rfl _ _ _
    exact ⟨by simp, by simp⟩
  · rintro t rfl hurg hport hsent
    have hopen : ¬ s.state.closed := fun hc => by simp [hurg] at h; exact h hc hport hsent
    have hrst := writeRst_quiet e.tun.rst { s with hostname := packetHostname abi p s } s
    refine ⟨fun hc => absurd hc hopen, ?_⟩
    simpa [Silent, hopen] using hrst.2
  · rintro t n rfl hurg hport hsent _
    have hopen : ¬ s.state.closed := fun hc => by simp [hurg] at h; exact h hc hport hsent
    exact ⟨fun hc => absurd hc hopen, by simp [Silent, hopen]⟩
  · rintro t n rfl _ _
    exact handleSession_quiet e p { s with hostname := n }

/-! ## An event on the socket -/

/-- The loop never looks at the state, and never changes it. -/
theorem forwardData_state (abi : Abi) (e : SocketEnv) (s : Session) :
    (forwardData abi e s).1.state = s.state :=
  forwardData_rule (fun _ t _ => t.state = s.state) abi e s [] (fun _ _ _ ht => ht)
    (fun _ _ _ _ _ _ _ _ ht _ _ _ _ => ht) rfl

theorem forwardData_open (abi : Abi) (e : SocketEnv) (s : Session) (h : ¬ s.state.closed) :
    (forwardData abi e s).1.state = s.state ∧ ∀ o ∈ (forwardData abi e s).2.2, Silent o := by
  have hrule := forwardData_rule
    (fun _ t tr => t.state = s.state ∧ ∀ o ∈ tr, Silent o) abi e s []
    (fun _ t tr ht => ⟨ht.1, by simpa [Silent, or_imp, forall_and] using ht.2⟩)
    (fun i _ t tr g q n hn ht _ _ _ _ =>
      ⟨ht.1, by simpa [Silent, or_imp, forall_and, ht.1, h] using ht.2⟩)
    ⟨rfl, by simp⟩
  simpa using hrule

theorem handleEof_quiet (e : SocketEnv) (s : Session)
    (hst : s.state = .established ∨ s.state = .closeWait) : ∀ o ∈ (handleEof e s).2, Silent o := by
  have hopen : ¬ s.state.closed := by rcases hst with h | h <;> simp [h]
  refine handleEof_cases e s hst ?_ ?_ ?_ <;> simp [Silent, hopen, writeTcp]

theorem readSocket_quiet (e : SocketEnv) (s : Session) : Quiet s (readSocket e s) := by
  have hopen (hst : s.state = .established ∨ s.state = .closeWait) : ¬ s.state.closed := by
    rcases hst with h | h <;> simp [h]
  refine readSocket_cases e s ?_ ?_ ?_ ?_ ?_ ?_
  · exact ⟨id, by simp⟩
  · exact fun _ hst => ⟨id, by simp [Silent]⟩
  · exact fun _ hst => ⟨fun _ => closed_closing, by simp [Silent, writeTcp]⟩
  · intro asked hst
    have heof := handleEof_quiet e { s with time := e.now } hst
    exact ⟨fun hc => absurd hc (hopen hst), by simpa [Silent] using heof⟩
  · rintro asked bytes t hst _ _ rfl _
    exact ⟨id, by simp [Silent, hopen hst]⟩
  · rintro asked bytes t hst _ rfl _
    exact ⟨fun _ => closed_closing, by simp [Silent, hopen hst]⟩

theorem ackForwarded_open (e : SocketEnv) (fwd : Bool) (s : Session) (h : ¬ s.state.closed) :
    ∀ o ∈ (ackForwarded e fwd s).2, Silent o := by
  refine ackForwarded_cases e fwd s ?_ ?_ ?_
  · simp
  · rintro t rfl _ _ _
    simp [Silent, h]
  · rintro t rfl _ _
    simp [Silent, h]

theorem relay_quiet (abi : Abi) (e : SocketEnv) (s : Session)
    (h : s.state.closed →
    (e.ev.out = true → ∀ g ∈ s.forward.head?, ¬ canForward s g (receiveBuffer s.socket e.sndbuf)) ∧
    ¬ (s.recvWindow = 0 ∧ 0 < getReceiveWindow s e.rcvbuf)) :
    Quiet s (relay abi e s) := by
  by_cases hc : s.state.closed
  · obtain ⟨hhead, hwin⟩ := h hc
    have hidle : forwardData abi e s = (s, false, []) :=
      forwardData_idle abi e s fun g q hq hout => hhead hout g (by simp [hq])
    have hack : ackForwarded e false s =
        ({ s with recvWindow := getReceiveWindow s e.rcvbuf }, []) := by
      unfold ackForwarded
      simp only [Bool.false_eq_true, false_or, if_neg hwin]
    have hread := readSocket_quiet e { s with recvWindow := getReceiveWindow s e.rcvbuf }
    unfold relay
    simp only [hidle, hack, List.nil_append]
    exact hread
  · obtain ⟨hst, hfwd⟩ := forwardData_open abi e s hc
    have hack := ackForwarded_open e (forwardData abi e s).2.1 (forwardData abi e s).1
      (by rwa [hst])
    refine ⟨fun h => absurd h hc, ?_⟩
    unfold relay
    intro o ho
    rcases List.mem_append.mp ho with ho | ho
    · rcases List.mem_append.mp ho with ho | ho
      · exact hfwd o ho
      · exact hack o ho
    · exact (readSocket_quiet e _).2 o ho

theorem readReply_quiet (e : SocketEnv) (s : Session) (hst : s.state = .listen) :
    Quiet s (readReply e s) := by
  have hrst := (writeRst_quiet e.tun.rst s s).2
  have hopen : ¬ s.state.closed := by simp [hst]
  refine readReply_cases e s hst ?_ ?_ ?_
  · exact fun _ _ => ⟨fun h => absurd h hopen, by simpa [Silent] using hrst⟩
  · exact fun _ _ _ => ⟨fun h => absurd h hopen, by simpa [Silent] using hrst⟩
  · exact fun _ _ _ => ⟨fun h => absurd h hopen, by simp [Silent, drained]⟩

theorem handshake_quiet (e : SocketEnv) (s : Session) (hst : s.state = .listen) :
    Quiet s (handshake e s) := by
  have hopen : ¬ s.state.closed := by simp [hst]
  refine handshake_cases e s hst ?_ ?_
  · exact fun t _ => ⟨fun h => absurd h hopen, by simp [Silent]⟩
  · exact fun t _ => ⟨fun h => absurd h hopen, by simp [Silent]⟩

/-! ## Steps and runs -/

theorem step_quiet (abi : Abi) (s : Session) (i : Input) (h : LeavesClosed s i) :
    Quiet s (step abi s i) := by
  cases i with
  | packet e p => exact handleTcp_quiet abi e p s h
  | socket e =>
    show Quiet s (checkTcpSocket abi e s)
    refine checkTcpSocket_cases abi e s ?_ ?_ ?_ ?_
    · exact fun _ => writeRst_quiet _ _ _
    · exact fun _ hst _ => readReply_quiet e s hst
    · exact fun _ hst _ => handshake_quiet e s hst
    · exact fun herr _ => relay_quiet abi e s fun hc => h hc herr
  | monitor e =>
    refine monitorStep_cases abi e s ⟨id, by simp⟩ ?_
    rintro t ev outs ⟨ms, st, rfl, hst, houts⟩
    constructor
    · intro hc
      rcases hst with rfl | rfl
      · exact hc
      · exact closed_closing
    · rcases houts with houts | ⟨⟨hopen, -⟩, houts⟩
      · simp [houts]
      · have hopen : ¬ s.state.closed := by rcases hopen with h | h <;> simp [h]
        simp [houts, Silent, hopen]
  | check e =>
    show Quiet s ((checkTcpSession e s).1, (checkTcpSession e s).2.2)
    refine checkTcpSession_cases e s ?_ ?_ ?_ ?_
    · exact fun _ => ⟨id, by simp⟩
    · exact fun _ _ => ⟨id, by simp⟩
    · rintro fd del t rfl _ _
      refine ⟨fun _ => closed_close, ?_⟩
      split <;> simp [Silent]
    · rintro fd del t rfl _ _ _
      refine ⟨fun _ => closed_close, ?_⟩
      split <;> simp [Silent, writeTcp]

/-- A closed session is in LISTEN again behind a packet that needs a CONNECT, if the
request can be sent. -/
def Revives (e : PacketEnv) (p : Packet) (s : Session) : Prop :=
  s.state.closed ∧ p.urg = false ∧ proxied s.dest ∧ s.connectSent = .notSent ∧ 0 ≤ s.socket ∧
    ∃ n, e.send = .ok n

theorem handleTcp_closed_iff (abi : Abi) (e : PacketEnv) (p : Packet) (s : Session)
    (hc : s.state.closed) :
    (handleTcp abi e p s).1.state.closed ↔ ¬ Revives e p s := by
  constructor
  · rintro hclosed ⟨-, hurg, hport, hsent, hopen, n, hn⟩
    have hne := packetHostname_ne_nil abi p s
    have hsocket : ¬ s.socket < 0 := by omega
    simp [handleTcp, connectPhase, hurg, hport, hsent, hne, sockSend, hsocket, hn] at hclosed
  · intro hno
    refine handleTcp_cases abi e p s ?_ ?_ ?_ ?_ ?_
    · exact fun _ => hc
    · rintro t h rfl _ _ _
      simpa using hc
    · rintro t rfl _ _ _
      simpa using writeRst_closed e.tun.rst { s with hostname := packetHostname abi p s }
    · rintro t n rfl hurg hport hsent hsend
      have hok := sockSend_ok hsend
      exact absurd ⟨hc, hurg, hport, hsent, hok.1, hok.2.2⟩ hno
    · rintro t h rfl _ _
      exact (handleSession_quiet e p { s with hostname := h }).1 hc

theorem readSocket_closed (e : SocketEnv) (s : Session) (h : s.state.closed) :
    readSocket e s = (s, []) := by
  have hne : ¬ (s.state = .established ∨ s.state = .closeWait) := by
    rcases h with h | h <;> simp [h]
  simp [readSocket, hne]

theorem ackForwarded_closed (e : SocketEnv) (fwd : Bool) (s : Session) (h : s.state.closed) :
    (ackForwarded e fwd s).1.state.closed := by
  have hacked (t : Session) (ht : t.state.closed) : (acked e t).state.closed := by
    unfold acked
    split
    · exact ht
    · exact closed_closing
  refine ackForwarded_cases e fwd s (fun _ => h) ?_ ?_
  · rintro t rfl _ _ _
    exact hacked _ h
  · rintro t rfl _ _
    exact hacked _ h

/-- Only a packet takes a closed session out of its state. -/
theorem checkTcpSocket_closed (abi : Abi) (e : SocketEnv) (s : Session) (hc : s.state.closed) :
    (checkTcpSocket abi e s).1.state.closed := by
  refine checkTcpSocket_cases abi e s ?_ ?_ ?_ ?_
  · exact fun _ => writeRst_closed _ _
  · exact fun _ hst _ => absurd hc (by simp [hst])
  · exact fun _ hst _ => absurd hc (by simp [hst])
  · intro _ _
    have hforward : (forwardData abi e s).1.state.closed := by rwa [forwardData_state]
    exact (readSocket_quiet e _).1 (ackForwarded_closed e (forwardData abi e s).2.1 _ hforward)

/-- A run whose events on the closed session all leave it alone keeps it closed
and silent. -/
theorem closed_stays_silent (abi : Abi) (s : Session) (is : List Input)
    (h : Along (step abi) LeavesClosed s is) : StaysClosed abi s is := by
  refine ⟨run_outputs (step abi) LeavesClosed Silent
    (fun t i hi => (step_quiet abi t i hi).2) s is h, ?_⟩
  rintro before after rfl hclosed
  exact run_persists (step abi) LeavesClosed (fun t => t.state.closed)
    (fun t i ht hi => (step_quiet abi t i hi).1 ht) s before after h hclosed

/-- A reset session to port 443 gets an event that finds nothing to forward, and
an urgent packet. -/
theorem closed_stays_silent_reset :
    StaysClosed .arm64V8a (newSession (plainSyn 443) (synPacket []))
      [.socket failed, .socket writable,
        .packet plainEnv { plainPacket 1001 5001 [] with urg := true }] :=
  closed_stays_silent .arm64V8a _ _ (by decide +kernel)

/-- The same session answers the client's next packet with a CONNECT request and
is in LISTEN again. -/
theorem closed_session_revived :
    ¬ StaysClosed .arm64V8a (newSession (plainSyn 443) (synPacket []))
      [.socket failed, .packet plainEnv (plainPacket 1001 5001 [])] := by
  rintro ⟨-, h⟩
  exact absurd (h [.socket failed] [.packet plainEnv (plainPacket 1001 5001 [])] rfl
    (by decide +kernel))
    (by decide +kernel)

end PdaNetClient.Tcp
