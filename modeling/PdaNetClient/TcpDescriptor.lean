import PdaNetClient.TcpClosed

/-!
# The descriptor of a TCP session

What the state of a session says about its descriptor, and that every handler either
leaves the descriptor alone or closes it once.
-/
namespace PdaNetClient.Tcp

open Http Runs

set_option autoImplicit false

/-- The descriptor that an output closes. -/
def Out.closes : Out → Option Int
  | .close fd => some fd
  | _ => none

/-- The descriptor that is open behind a socket field. -/
def held (fd : Int) : Option Int := if 0 ≤ fd then some fd else none

@[simp] theorem held_neg_one : held (-1) = none := rfl

theorem held_of_nonneg {fd : Int} (h : 0 ≤ fd) : held fd = some fd := if_pos h

/-- The descriptor is closed in FIN_WAIT1, LAST_ACK and CLOSE, and open before. -/
def Descriptor (st : State) (fd : Int) : Prop :=
  match st with
  | .listen | .synRecv | .established | .closeWait => 0 ≤ fd
  | .closing => fd = -1 ∨ 0 ≤ fd
  | .finWait1 | .lastAck | .close => fd = -1

theorem Descriptor.bound {st : State} {fd : Int} (h : Descriptor st fd) : fd = -1 ∨ 0 ≤ fd := by
  cases st <;> simp only [Descriptor] at h <;> omega

/-- A session may be reset at any time. -/
theorem Descriptor.closing {st : State} {fd : Int} (h : Descriptor st fd) :
    Descriptor .closing fd :=
  h.bound

theorem Descriptor.closed {st : State} {fd : Int} (h : Descriptor st fd) {st' : State}
    (hst : st'.closed) (hclose : st' = .close → st = .close) : Descriptor st' fd := by
  rcases hst with rfl | rfl
  · exact h.closing
  · exact hclose rfl ▸ h

/-- A handler keeps the relation, and closes the descriptor at most once. -/
structure Careful (s : Session) (r : Session × List Out) : Prop where
  state : Descriptor r.1.state r.1.socket
  held : r.2.filterMap Out.closes ++ (held r.1.socket).toList = (held s.socket).toList

/-- A handler that leaves the descriptor alone. -/
structure Leaves (s : Session) (r : Session × List Out) : Prop where
  state : Descriptor r.1.state r.1.socket
  socket : r.1.socket = s.socket
  closes : r.2.filterMap Out.closes = []

section

variable {s t : Session} {r : Session × List Out}

theorem Leaves.careful (h : Leaves s r) : Careful s r :=
  ⟨h.state, by rw [h.closes, h.socket, List.nil_append]⟩

/-- What was done before left the descriptor alone as well. -/
theorem Careful.after (h : Careful t r) (hsocket : t.socket = s.socket) {outs : List Out}
    (houts : outs.filterMap Out.closes = []) : Careful s (r.1, outs ++ r.2) :=
  ⟨h.state, by rw [List.filterMap_append, houts, List.nil_append, h.held, hsocket]⟩

theorem writeRst_leaves (ok : Bool) (h : Descriptor s.state s.socket) :
    Leaves s (writeRst ok s) := by
  refine writeRst_cases ok s (fun _ => ?_) (fun st _ hst hclose => ?_)
  · exact ⟨h.closing, rfl, rfl⟩
  · exact ⟨h.closed hst hclose.mp, rfl, rfl⟩

/-! ## A segment from tun -/

theorem handleFin_leaves (e : PacketEnv) (h : Descriptor s.state s.socket) :
    Leaves s (handleFin e s) := by
  refine handleFin_cases e s ?_ ?_ ?_ ?_
  · exact ⟨h, rfl, rfl⟩
  · intro hst _
    rw [hst] at h
    exact ⟨h, rfl, rfl⟩
  · rintro t rfl hst _
    rw [hst] at h
    cases hok : e.tun.ack
    · exact ⟨h.closing, rfl, rfl⟩
    · exact ⟨h, rfl, rfl⟩
  · rintro t rfl hst
    rw [hst] at h
    cases hok : e.tun.ack
    · exact ⟨h.closing, rfl, rfl⟩
    · exact ⟨h, rfl, rfl⟩

theorem handleFlags_leaves (e : PacketEnv) (p : Packet) (h : Descriptor s.state s.socket) :
    Leaves s (handleFlags e p s) := by
  refine handleFlags_cases e p s ?_ ?_ ?_ ?_ ?_ ?_
  · exact ⟨h, rfl, rfl⟩
  · exact ⟨h.closing, rfl, rfl⟩
  · exact fun _ _ _ _ => handleFin_leaves e h
  · rintro st rfl _
    refine ⟨?_, rfl, rfl⟩
    revert h
    cases s.state with
    | synRecv => exact id
    | lastAck => exact Descriptor.closing
    | _ => exact id
  · exact fun _ _ => ⟨h, rfl, rfl⟩
  · exact fun _ _ => writeRst_leaves _ h

theorem handleSession_leaves (e : PacketEnv) (p : Packet) (h : Descriptor s.state s.socket) :
    Leaves s (handleSession e p s) := by
  refine handleSession_cases e p s ?_ ?_ ?_ ?_
  · exact fun _ => writeRst_leaves _ h
  · rintro t w rfl _ _ _
    have hrst := writeRst_leaves (s := { s with time := e.now, sendWindow := w }) e.tun.rst h
    exact ⟨hrst.state, hrst.socket, hrst.closes⟩
  · rintro t w rfl _ _
    have hflags := handleFlags_leaves (s := { s with time := e.now, sendWindow := w }) e p h
    exact ⟨hflags.state, hflags.socket, hflags.closes⟩
  · rintro t w rfl _ _ _ _
    have hflags :=
      handleFlags_leaves (s := queueTcp p { s with time := e.now, sendWindow := w }) e p
      (by simpa using h)
    exact ⟨hflags.state, by simpa using hflags.socket, hflags.closes⟩

/-- The request can only be sent on an open descriptor, so that a session it takes back to
LISTEN has one. -/
theorem handleTcp_leaves (abi : Abi) (e : PacketEnv) (p : Packet)
    (h : Descriptor s.state s.socket) :
    Leaves s (handleTcp abi e p s) := by
  refine handleTcp_cases abi e p s ?_ ?_ ?_ ?_ ?_
  · exact fun _ => ⟨h, rfl, rfl⟩
  · rintro t host rfl _ _ _
    exact ⟨by simpa using h, by simp, rfl⟩
  · rintro t rfl _ _ _
    have hrst := writeRst_leaves (s := { s with hostname := packetHostname abi p s }) e.tun.rst h
    exact ⟨by simpa using hrst.state, by simp, hrst.closes⟩
  · rintro t n rfl _ _ _ hn
    exact ⟨by simp [Descriptor, (sockSend_ok hn).1], by simp, rfl⟩
  · rintro t host rfl _ _
    have hsession := handleSession_leaves (s := { s with hostname := host }) e p h
    exact ⟨hsession.state, hsession.socket, hsession.closes⟩

/-! ## An event on the socket -/

theorem forwardData_leaves (abi : Abi) (e : SocketEnv) (h : Descriptor s.state s.socket) :
    Leaves s ((forwardData abi e s).1, (forwardData abi e s).2.2) := by
  refine forwardData_rule (fun _ t tr => Leaves s (t, tr)) abi e s [] ?_ ?_ ⟨h, rfl, rfl⟩
  · intro _ t tr ht
    exact ⟨ht.state, ht.socket, by rw [List.filterMap_append, ht.closes]; rfl⟩
  · intro i _ t tr g q n hn ht _ _ _ _
    exact ⟨ht.state, ht.socket, by rw [List.filterMap_append, ht.closes]; rfl⟩

theorem ackForwarded_leaves (e : SocketEnv) (fwd : Bool) (h : Descriptor s.state s.socket) :
    Leaves s (ackForwarded e fwd s) := by
  have hack (t : Session) (ht : Descriptor t.state t.socket) :
      Descriptor (acked e t).state (acked e t).socket ∧ (acked e t).socket = t.socket := by
    unfold acked
    split
    · exact ⟨ht, rfl⟩
    · exact ⟨ht.closing, rfl⟩
  refine ackForwarded_cases e fwd s ?_ ?_ ?_
  · exact fun _ => ⟨h, rfl, rfl⟩
  · rintro t rfl _ _ _
    obtain ⟨hstate, hsocket⟩ :=
      hack { s with recvWindow := getReceiveWindow s e.rcvbuf, remoteSeq := s.remoteSeq + 1 } h
    exact ⟨hstate, hsocket, rfl⟩
  · rintro t rfl _ _
    obtain ⟨hstate, hsocket⟩ := hack { s with recvWindow := getReceiveWindow s e.rcvbuf } h
    exact ⟨hstate, hsocket, rfl⟩

/-- The end of the stream closes the descriptor. -/
theorem handleEof_careful (e : SocketEnv) (hst : s.state = .established ∨ s.state = .closeWait)
    (h : Descriptor s.state s.socket) : Careful s (handleEof e s) := by
  have hopen : 0 ≤ s.socket := by rcases hst with hst | hst <;> simpa [hst, Descriptor] using h
  have hheld : held s.socket = some s.socket := held_of_nonneg hopen
  refine handleEof_cases e s hst ?_ ?_ ?_
  · exact fun _ => ⟨.inl rfl, by rw [hheld]; rfl⟩
  · refine fun _ _ => ⟨?_, by rw [hheld]; rfl⟩
    rcases hst with hst | hst <;> simp [hst, Descriptor]
  · exact fun _ _ => ⟨.inl rfl, by rw [hheld]; rfl⟩

theorem readSocket_careful (e : SocketEnv) (h : Descriptor s.state s.socket) :
    Careful s (readSocket e s) := by
  refine readSocket_cases e s ?_ ?_ ?_ ?_ ?_ ?_
  · exact Leaves.careful ⟨h, rfl, rfl⟩
  · exact fun _ _ => Leaves.careful ⟨h, rfl, rfl⟩
  · exact fun _ _ => Leaves.careful ⟨h.closing, rfl, rfl⟩
  · intro asked hst
    have heof := handleEof_careful (s := { s with time := e.now }) e hst h
    exact ⟨heof.state, heof.held⟩
  · rintro _ _ t _ _ _ rfl _
    exact Leaves.careful ⟨h, rfl, rfl⟩
  · rintro _ _ t _ _ rfl _
    exact Leaves.careful ⟨h.closing, rfl, rfl⟩

theorem relay_careful (abi : Abi) (e : SocketEnv) (h : Descriptor s.state s.socket) :
    Careful s (relay abi e s) := by
  have hforward := forwardData_leaves abi e h
  have hack := ackForwarded_leaves e (forwardData abi e s).2.1 hforward.state
  have hread := readSocket_careful e hack.state
  refine hread.after (hack.socket.trans hforward.socket) ?_
  rw [List.filterMap_append, hforward.closes, hack.closes, List.nil_append]

theorem checkTcpSocket_careful (abi : Abi) (e : SocketEnv) (hopen : 0 ≤ s.socket)
    (h : Descriptor s.state s.socket) :
    Careful s (checkTcpSocket abi e s) := by
  refine checkTcpSocket_cases abi e s ?_ ?_ ?_ ?_
  · intro _
    have hrst := writeRst_leaves (s := { s with time := e.now }) e.tun.rst h
    exact Leaves.careful ⟨hrst.state, hrst.socket, hrst.closes⟩
  · intro _ hst _
    have hrst := writeRst_leaves e.tun.rst h
    refine readReply_cases e s hst ?_ ?_ ?_
    · exact fun _ _ => Leaves.careful ⟨hrst.state, hrst.socket, hrst.closes⟩
    · exact fun _ _ _ => Leaves.careful ⟨hrst.state, hrst.socket, hrst.closes⟩
    · refine fun _ _ _ => Leaves.careful ⟨hopen, rfl, ?_⟩
      simp [drained, Out.closes]
  · intro _ hst _
    refine handshake_cases e s hst ?_ ?_
    · rintro t rfl
      exact Leaves.careful ⟨hopen, rfl, rfl⟩
    · rintro t rfl
      exact Leaves.careful ⟨.inr hopen, rfl, rfl⟩
  · exact fun _ _ => relay_careful abi e h

/-! ## The periodic functions -/

theorem monitor_leaves (e : MonitorEnv) (h : Descriptor s.state s.socket) :
    Leaves s ((monitorTcpSession e s).1, (monitorTcpSession e s).2.2) := by
  obtain ⟨t, ev, ht, ms, st, rfl, hst, houts⟩ := monitor_eq e s
  rw [ht]
  refine ⟨?_, rfl, ?_⟩
  · rcases hst with rfl | rfl
    · exact h
    · exact h.closing
  · rcases houts with houts | ⟨-, houts⟩ <;> simp [houts, Out.closes]

/-- The check pass closes the descriptor of a session that it closes; one that is to be
deleted has none. -/
theorem checkTcpSession_careful (e : CheckEnv) (h : Descriptor s.state s.socket) :
    Careful s ((checkTcpSession e s).1, (checkTcpSession e s).2.2) ∧
      ((checkTcpSession e s).2.1 = true → (checkTcpSession e s).1.socket = -1) := by
  have hclose : ((if 0 ≤ s.socket then [Out.close s.socket] else []).filterMap Out.closes ++
      (held (closedFd s.socket)).toList) = (held s.socket).toList := by
    rcases h.bound with hfd | hfd
    · simp [hfd, closedFd, held]
    · simp [hfd, closedFd, held, Out.closes]
  have hgone : closedFd s.socket = -1 := by
    rcases h.bound with hfd | hfd <;> simp [hfd, closedFd]
  refine checkTcpSession_cases e s ?_ ?_ ?_ ?_
  · exact fun _ => ⟨Leaves.careful ⟨h, rfl, rfl⟩, by simp⟩
  · intro del hst
    exact ⟨Leaves.careful ⟨h, rfl, rfl⟩, fun _ => by simpa [hst, Descriptor] using h⟩
  · rintro fd del t rfl _ rfl
    exact ⟨⟨hgone, hclose⟩, fun _ => hgone⟩
  · rintro fd del t rfl _ _ rfl
    exact ⟨⟨hgone, hclose⟩, fun _ => hgone⟩

end

end PdaNetClient.Tcp
