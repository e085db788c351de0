import PdaNetClient.TcpClosed

/-!
# A reset from the client

`handle_tcp` looks at the RST flag behind the CONNECT request, and behind the queue of a session
whose tunnel does not stand yet. On a relayed port a reset therefore sends the request that was
not sent, or waits in the queue for the reply. Everywhere else it closes the session.
-/
namespace PdaNetClient.Tcp

open Runs

set_option autoImplicit false

/-- The answer of a closed session: a reset, or a request that the socket did not take. -/
def Out.refuses : Out → Prop
  | .tun _ p _ => p.rst = true
  | .connect _ _ accepted => accepted = none
  | _ => False

instance : (o : Out) → Decidable o.refuses
  | .tun _ _ _ | .connect _ _ _ | .forward _ _ _ _ | .recv _ _ _ | .remoteFin | .close
      _ | .crash => by
    unfold Out.refuses
    infer_instance

/-- A step leaves the session closed, and a packet gets no other answer than a reset. -/
structure StaysDown (abi : Abi) (s : Session) (i : Input) : Prop where
  closed : (step abi s i).1.state.closed
  refuses : ∀ e p, i = .packet e p → ∀ o ∈ (step abi s i).2, o.refuses

/-- The packet closes the session for good, and no request goes out for it. -/
structure TearsDown (abi : Abi) (e : PacketEnv) (p : Packet) (s : Session) : Prop where
  closed : (handleTcp abi e p s).1.state.closed
  refuses : ∀ o ∈ (handleTcp abi e p s).2, o.refuses
  forever : ∀ is, Along (step abi) (StaysDown abi) (handleTcp abi e p s).1 is

/-- Nothing stands before the branch for resets; or the session is closed already, and no request
can open it again. -/
def HearsReset (s : Session) : Prop :=
  proxied s.dest → match s.connectSent with
    | .established => True
    | .sent => s.state.closed
    | .notSent => s.socket < 0

instance (s : Session) : Decidable (HearsReset s) := by
  unfold HearsReset
  cases s.connectSent <;> infer_instance

/-! ## Closed for good -/

/-- Closed, with no request left that could be sent. -/
structure Dead (s : Session) : Prop where
  closed : s.state.closed
  gone : proxied s.dest → s.connectSent = .notSent → s.socket < 0

/-- What decides about the request. -/
def Session.anchor (s : Session) : Nat × ConnectSent × Int := (s.dest, s.connectSent, s.socket)

theorem Dead.keeps {s t : Session} (h : Dead s) (hclosed : t.state.closed)
    (hanchor : t.anchor = s.anchor) : Dead t := by
  simp only [Session.anchor, Prod.mk.injEq] at hanchor
  obtain ⟨hdest, hsent, hsocket⟩ := hanchor
  exact ⟨hclosed, by rw [hdest, hsent, hsocket]; exact h.gone⟩

theorem writeRst_anchor (ok : Bool) (s : Session) : (writeRst ok s).1.anchor = s.anchor := by
  simp [Session.anchor]

theorem queueTcp_anchor (p : Packet) (s : Session) : (queueTcp p s).anchor = s.anchor := by
  simp [Session.anchor]

theorem writeRst_refuses (ok : Bool) (s : Session) : ∀ o ∈ (writeRst ok s).2, o.refuses := by
  simp [writeRst, Out.refuses, writeTcp]

theorem forwardData_anchor (abi : Abi) (e : SocketEnv) (s : Session) :
    (forwardData abi e s).1.anchor = s.anchor :=
  forwardData_rule (fun _ t _ => t.anchor = s.anchor) abi e s [] (fun _ _ _ => id)
    (fun _ _ _ _ _ _ _ _ ht _ _ _ _ => ht) rfl

theorem ackForwarded_anchor (e : SocketEnv) (fwd : Bool) (s : Session) :
    (ackForwarded e fwd s).1.anchor = s.anchor := by
  have hacked (t : Session) : (acked e t).anchor = t.anchor := by
    unfold acked
    split <;> rfl
  refine ackForwarded_cases e fwd s (fun _ => rfl) ?_ ?_
  · rintro t rfl _ _ _
    exact hacked _
  · rintro t rfl _ _
    exact hacked _

theorem checkTcpSocket_dead (abi : Abi) (e : SocketEnv) (s : Session) (h : Dead s) :
    Dead (checkTcpSocket abi e s).1 := by
  apply h.keeps (checkTcpSocket_closed abi e s h.closed)
  refine checkTcpSocket_cases abi e s ?_ ?_ ?_ ?_
  · exact fun _ => writeRst_anchor e.tun.rst { s with time := e.now }
  · exact fun _ hst _ => absurd h.closed (by simp [hst])
  · exact fun _ hst _ => absurd h.closed (by simp [hst])
  · intro _ _
    have hforward : (forwardData abi e s).1.state.closed := by
      rw [forwardData_state]
      exact h.closed
    have hack := ackForwarded_closed e (forwardData abi e s).2.1 (forwardData abi e s).1 hforward
    show (readSocket e _).1.anchor = s.anchor
    rw [readSocket_closed e _ hack, ackForwarded_anchor, forwardData_anchor]

theorem handleSession_dead (e : PacketEnv) (p : Packet) (s : Session) (h : s.state.closed) :
    handleSession e p s = writeRst e.tun.rst s := by
  rw [handleSession, if_pos h]

theorem handleTcp_dead (abi : Abi) (e : PacketEnv) (p : Packet) (s : Session) (h : Dead s) :
    Dead (handleTcp abi e p s).1 ∧ ∀ o ∈ (handleTcp abi e p s).2, o.refuses := by
  refine handleTcp_cases abi e p s ?_ ?_ ?_ ?_ ?_
  · exact fun _ => ⟨h, by simp⟩
  · rintro t host rfl _ _ _
    exact ⟨h.keeps (by simpa using h.closed) (queueTcp_anchor p _), by simp⟩
  · rintro t rfl _ _ _
    refine ⟨h.keeps ?_ ((queueTcp_anchor p _).trans (writeRst_anchor _ _)), ?_⟩
    · rw [queueTcp_state]
      exact writeRst_closed _ _
    · intro o ho
      rcases List.mem_cons.mp ho with rfl | ho
      · rfl
      · exact writeRst_refuses _ _ o ho
  · rintro t n rfl _ hport hsent hsend
    have hopen := (sockSend_ok hsend).1
    have hgone := h.gone hport hsent
    omega
  · rintro t host rfl _ _
    rw [handleSession_dead e p { s with hostname := host } h.closed]
    exact ⟨h.keeps (writeRst_closed _ _) (writeRst_anchor _ _), writeRst_refuses _ _⟩

/-- No step opens a dead session again. -/
theorem step_dead (abi : Abi) (s : Session) (i : Input) (h : Dead s) :
    StaysDown abi s i ∧ Dead (step abi s i).1 := by
  cases i with
  | packet e p =>
    obtain ⟨hdead, hrefuses⟩ := handleTcp_dead abi e p s h
    refine ⟨⟨hdead.closed, ?_⟩, hdead⟩
    rintro e' p' heq
    cases heq
    exact hrefuses
  | socket e =>
    have hdead := checkTcpSocket_dead abi e s h
    exact ⟨⟨hdead.closed, by simp⟩, hdead⟩
  | monitor e =>
    have hdead : Dead (step abi s (.monitor e)).1 := by
      refine monitorStep_cases abi e s h ?_
      rintro t ev outs ⟨ms, st, rfl, hst, -⟩
      have hclosed : st.closed := by
        rcases hst with rfl | rfl
        · exact h.closed
        · exact closed_closing
      exact h.keeps hclosed rfl
    exact ⟨⟨hdead.closed, by simp⟩, hdead⟩
  | check e =>
    have hdead : Dead (checkTcpSession e s).1 := by
      refine checkTcpSession_cases e s (fun _ => h) ?_ ?_ ?_
      · exact fun _ hst => h.keeps (.inr hst) rfl
      · rintro fd del t rfl _ hfd
        exact ⟨closed_close, fun _ _ => hfd ▸ closedFd_neg _⟩
      · rintro fd del t rfl _ hopen _
        exact absurd h.closed hopen
    exact ⟨⟨hdead.closed, by simp⟩, hdead⟩

theorem dead_forever (abi : Abi) (s : Session) (h : Dead s) (is : List Input) :
    Along (step abi) (StaysDown abi) s is := by
  apply along_of_invariant (step abi) (fun _ _ => True) (StaysDown abi) Dead
  · exact fun t i ht _ => step_dead abi t i ht
  · exact h
  · exact along_of_forall (step abi) s is fun _ _ => trivial

/-! ## The reset -/

/-- A session that gets as far as the flags is closed. -/
theorem handleSession_reset (e : PacketEnv) (p : Packet) (s : Session) (hrst : p.rst = true) :
    ((handleSession e p s).1.state.closed ∧ (handleSession e p s).1.anchor = s.anchor) ∧
      ∀ o ∈ (handleSession e p s).2, o.refuses := by
  have hflags (t : Session) : handleFlags e p t = ({ t with state := .closing }, []) := by
    simp [handleFlags, hrst]
  refine handleSession_cases e p s ?_ ?_ ?_ ?_
  · exact fun _ => ⟨⟨writeRst_closed _ _, writeRst_anchor _ _⟩, writeRst_refuses _ _⟩
  · rintro t w rfl _ _ _
    exact ⟨⟨writeRst_closed _ _, writeRst_anchor _ _⟩, writeRst_refuses _ _⟩
  · rintro t w rfl _ _
    rw [hflags]
    exact ⟨⟨closed_closing, rfl⟩, by simp⟩
  · rintro t w rfl _ _ _ _
    rw [hflags]
    exact ⟨⟨closed_closing, queueTcp_anchor p _⟩, by simp⟩

theorem tearsDown_of_session (abi : Abi) (e : PacketEnv) (p : Packet) (s t : Session)
    (hrst : p.rst = true) (heq : handleTcp abi e p s = handleSession e p t)
    (hgone : proxied t.dest → t.connectSent ≠ .notSent) :
    TearsDown abi e p s := by
  obtain ⟨⟨hclosed, hanchor⟩, hrefuses⟩ := handleSession_reset e p t hrst
  rw [← heq] at hclosed hanchor hrefuses
  simp only [Session.anchor, Prod.mk.injEq] at hanchor
  refine ⟨hclosed, hrefuses, dead_forever abi _ ⟨hclosed, fun hport hsent => ?_⟩⟩
  rw [hanchor.1] at hport
  rw [hanchor.2.1] at hsent
  exact absurd hsent (hgone hport)

theorem tearsDown_of_dead (abi : Abi) (e : PacketEnv) (p : Packet) {s : Session} (h : Dead s) :
    TearsDown abi e p s := by
  obtain ⟨hnext, hrefuses⟩ := handleTcp_dead abi e p s h
  exact ⟨hnext.closed, hrefuses, dead_forever abi _ hnext⟩

section waiting

variable {p : Packet} {s : Session}

/-- Behind a request that was sent, a reset waits in the queue. -/
theorem tearsDown_sent_iff (abi : Abi) (e : PacketEnv) (hurg : p.urg = false)
    (hport : proxied s.dest) (hsent : s.connectSent = .sent) :
    TearsDown abi e p s ↔ s.state.closed := by
  constructor
  · intro h
    have hclosed := h.closed
    rw [handleTcp_waiting abi e hurg hport (by simp [hsent]),
      connectPhase_past abi e p s (by simp [hsent])] at hclosed
    simpa using hclosed
  · intro hclosed
    have hdead : Dead s := ⟨hclosed, fun _ h => by simp [hsent] at h⟩
    exact tearsDown_of_dead abi e p hdead

/-- What is left of a session whose request the socket did not take. -/
def refusedSession (abi : Abi) (e : PacketEnv) (p : Packet) (s : Session) : Session :=
  queueTcp p (writeRst e.tun.rst { s with hostname := packetHostname abi p s }).1

theorem refusedSession_closed (abi : Abi) (e : PacketEnv) (p : Packet) (s : Session) :
    (refusedSession abi e p s).state.closed := by
  unfold refusedSession
  rw [queueTcp_state]
  exact writeRst_closed _ _

theorem refusedSession_anchor (abi : Abi) (e : PacketEnv) (p : Packet) (s : Session) :
    (refusedSession abi e p s).anchor = s.anchor :=
  (queueTcp_anchor p _).trans
    (writeRst_anchor e.tun.rst { s with hostname := packetHostname abi p s })

theorem handleTcp_refused (abi : Abi) (e : PacketEnv) {err : Errno} (hurg : p.urg = false)
    (hport : proxied s.dest) (hsent : s.connectSent = .notSent)
    (hsend : sockSend s.socket e.send (connectRequest (packetHostname abi p s) s.dest).length =
      .fail err) :
    (handleTcp abi e p s).1 = refusedSession abi e p s ∧
    ∀ o ∈ (handleTcp abi e p s).2, o.refuses := by
  rw [handleTcp_waiting abi e hurg hport (by simp [hsent]),
    connectPhase_refused abi e p s hsent hsend]
  refine ⟨rfl, fun o ho => ?_⟩
  rcases List.mem_cons.mp ho with rfl | ho
  · rfl
  · exact writeRst_refuses _ _ o ho

/-- Before the request, a reset sends it, or closes the session until the next packet sends it. -/
theorem tearsDown_unsent_iff (abi : Abi) (e : PacketEnv) (hurg : p.urg = false)
    (hport : proxied s.dest) (hsent : s.connectSent = .notSent) :
    TearsDown abi e p s ↔ s.socket < 0 := by
  have hanchor := refusedSession_anchor abi e p s
  simp only [Session.anchor, Prod.mk.injEq] at hanchor
  obtain ⟨hdest, hnotSent, hsocket⟩ := hanchor
  constructor
  · intro h
    by_contra hneg
    cases hsend : e.send with
    | ok n =>
      have hclosed := h.closed
      have htaken :
        sockSend s.socket e.send (connectRequest (packetHostname abi p s) s.dest).length =
          .ok (min n (connectRequest (packetHostname abi p s) s.dest).length) := by
        simp only [sockSend, if_neg hneg, hsend]
      rw [handleTcp_waiting abi e hurg hport (by simp [hsent]),
        connectPhase_request abi e p s hsent htaken] at hclosed
      simp at hclosed
    | fail err =>
      have hfail : sockSend s.socket e.send
          (connectRequest (packetHostname abi p s) s.dest).length = .fail err := by
        simp only [sockSend, if_neg hneg, hsend]
      -- the same packet, when the socket takes the request
      have hagain := (h.forever [.packet { e with send := .ok 0 } p]).1.closed
      rw [(handleTcp_refused abi e hurg hport hsent hfail).1] at hagain
      have hclosed := refusedSession_closed abi e p s
      refine (handleTcp_closed_iff abi { e with send := .ok 0 } p _ hclosed).mp hagain ?_
      exact ⟨hclosed, hurg, hdest ▸ hport, hnotSent.trans hsent, by omega, 0, rfl⟩
  · intro hneg
    have hsend : sockSend s.socket e.send (connectRequest (packetHostname abi p s) s.dest).length =
        .fail .other := by
      simp only [sockSend, if_pos hneg]
    obtain ⟨heq, hrefuses⟩ := handleTcp_refused abi e hurg hport hsent hsend
    have hdead : Dead (handleTcp abi e p s).1 := by
      rw [heq]
      exact ⟨refusedSession_closed abi e p s, fun _ _ => hsocket ▸ hneg⟩
    exact ⟨hdead.closed, hrefuses, dead_forever abi _ hdead⟩

end waiting

/-- A reset from the client tears the session down exactly if nothing stands before it. -/
theorem reset_tears_down_iff (abi : Abi) (e : PacketEnv) (p : Packet) (s : Session)
    (hurg : p.urg = false) (hrst : p.rst = true) :
    TearsDown abi e p s ↔ HearsReset s := by
  by_cases hport : proxied s.dest
  · cases hsent : s.connectSent with
    | established =>
      refine iff_of_true ?_ fun _ => by simp [hsent]
      exact tearsDown_of_session abi e p s _ hrst (handleTcp_tunnel abi e hurg hport hsent)
        fun _ => by simp [hsent]
    | sent =>
      rw [tearsDown_sent_iff abi e hurg hport hsent]
      simp [HearsReset, hport, hsent]
    | notSent =>
      rw [tearsDown_unsent_iff abi e hurg hport hsent]
      simp [HearsReset, hport, hsent]
  · refine iff_of_true ?_ fun h => absurd h hport
    exact tearsDown_of_session abi e p s s hrst (handleTcp_plain_port abi e hurg hport) fun h =>
      absurd h hport

/-- A reset on a connection to port 22, with data behind a gap. -/
theorem reset_tears_down_plain :
    TearsDown .arm64V8a plainEnv { plainPacket 1005 5001 (ascii "a") with rst := true }
    (newSession (plainSyn 22) (synPacket [])) :=
  (reset_tears_down_iff .arm64V8a plainEnv _ _ rfl rfl).mpr (by decide)

/-- To port 443 the reset that follows the SYN sends the request, and the next one is queued. -/
theorem reset_not_heard :
    let p := { plainPacket 1001 0 [] with rst := true }
    let r := handleTcp .arm64V8a plainEnv p (newSession (plainSyn 443) (synPacket []))
    r.1.state = .listen ∧ (∃ o ∈ r.2, ¬ o.refuses) ∧
      ¬ TearsDown .arm64V8a plainEnv p (newSession (plainSyn 443) (synPacket [])) ∧
      (handleTcp .arm64V8a plainEnv p r.1).1.state = .listen ∧
      ¬ TearsDown .arm64V8a plainEnv p r.1 := by
  refine ⟨by decide +kernel, by decide +kernel, fun h => ?_, by decide +kernel, fun h => ?_⟩
  · exact absurd h.closed (by decide +kernel)
  · exact absurd h.closed (by decide +kernel)

end PdaNetClient.Tcp
