import Mathlib.Order.Bounds.Basic
import PdaNetClient.TcpDescriptor
import PdaNetClient.TcpReadSize

/-!
# The states of a TCP session

The diagram that a session moves through, with the request to the proxy as a part of its
place in it. The source has no such table: the transitions are spread over the handlers,
and a tunnelled session can fall back to LISTEN as long as its request is not sent.
-/
namespace PdaNetClient.Tcp

open Http Runs

set_option autoImplicit false

structure Place where
  request : ConnectSent
  state : State
  deriving DecidableEq, Repr

def Session.place (s : Session) : Place := ⟨s.connectSent, s.state⟩

/-- The states one event may take a session to that needs no proxy. -/
def State.next : State → List State
  | .listen => [.synRecv, .closing, .close]
  | .synRecv => [.established, .closing, .close]
  | .established => [.closeWait, .finWait1, .closing, .close]
  | .closeWait => [.lastAck, .closing, .close]
  | .finWait1 | .lastAck => [.closing, .close]
  | .closing => [.close]
  | .close => []

/-- Without the proxy's answer no acknowledgement establishes a session. -/
def State.waiting (st : State) : List State := st.next.filter (· ≠ .established)

/-- The places behind `g`, for a session to a port that is tunnelled or not. The request
takes every session but one in CLOSE back to LISTEN. -/
def Place.next (tunnel : Bool) : Place → List Place
  | ⟨.notSent, st⟩ =>
    if tunnel then (if st = .close then [] else [⟨.sent, .listen⟩]) ++
      st.waiting.map (⟨.notSent, ·⟩)
    else st.next.map (⟨.notSent, ·⟩)
  | ⟨.sent, st⟩ =>
    (if st = .listen then [⟨.established, .established⟩] else []) ++ st.waiting.map (⟨.sent, ·⟩)
  | ⟨.established, st⟩ => st.next.map (⟨.established, ·⟩)

/-- Before the proxy answers a tunnelled session relays nothing, and behind it the
handshake is over. -/
def Place.Possible (tunnel : Bool) (g : Place) : Prop :=
  match g.request with
  | .notSent => tunnel = true → g.state ∈ [State.listen, .synRecv, .closing, .close]
  | .sent => tunnel = true ∧ g.state ∈ [State.listen, .synRecv, .closing, .close]
  | .established => tunnel = true ∧ g.state ∉ [State.listen, .synRecv]

instance (tunnel : Bool) : (g : Place) → Decidable (g.Possible tunnel)
  | ⟨.notSent, st⟩ => inferInstanceAs (Decidable (tunnel = true → st ∈ _))
  | ⟨.sent, st⟩ => inferInstanceAs (Decidable (tunnel = true ∧ st ∈ _))
  | ⟨.established, st⟩ => inferInstanceAs (Decidable (tunnel = true ∧ st ∉ _))

/-- One event leaves the place, or takes it to one of the next. -/
def Place.Arrow (tunnel : Bool) (g g' : Place) : Prop := g' = g ∨ g' ∈ g.next tunnel

instance (tunnel : Bool) (g g' : Place) : Decidable (g.Arrow tunnel g') :=
  inferInstanceAs (Decidable (_ ∨ _))

theorem Place.next_possible {tunnel : Bool} {g g' : Place} (h : g.Possible tunnel)
    (hg : g' ∈ g.next tunnel) :
    g'.Possible tunnel := by
  obtain ⟨request, st⟩ := g
  revert g'
  cases tunnel <;> cases request <;> cases st <;> revert h <;> decide

/-! ## What each handler does to the state -/

/-- A handler that establishes nothing leaves the state, or takes one arrow. -/
def State.Waits (st st' : State) : Prop := st' = st ∨ st' ∈ st.waiting

def State.Moves (st st' : State) : Prop := st' = st ∨ st' ∈ st.next

instance (st st' : State) : Decidable (st.Waits st') := inferInstanceAs (Decidable (_ ∨ _))
instance (st st' : State) : Decidable (st.Moves st') := inferInstanceAs (Decidable (_ ∨ _))

theorem State.Waits.moves {st st' : State} (h : st.Waits st') : st.Moves st' :=
  h.imp_right fun hmem => (List.mem_filter.mp hmem).1

theorem State.waits_close (st : State) : st.Waits .close := by cases st <;> decide

theorem State.waits_closing {st : State} (h : st ≠ .close) : st.Waits .closing := by
  cases st <;> first | decide | exact absurd rfl h

variable {s : Session}

theorem writeRst_waits (ok : Bool) (s : Session) : s.state.Waits (writeRst ok s).1.state := by
  by_cases h : s.state = .close
  · exact .inl (by simp [writeRst, h])
  · have hclosing : (writeRst ok s).1.state = .closing := by simp [writeRst, h]
    exact hclosing ▸ State.waits_closing h

/-! ### A segment from tun -/

theorem handleFin_waits (e : PacketEnv) (s : Session) : s.state.Waits (handleFin e s).1.state := by
  refine handleFin_cases e s ?_ ?_ ?_ ?_
  · exact .inl rfl
  · intro hst _
    have harrow : State.Waits .established .closeWait := by decide
    rwa [← hst] at harrow
  · intro t _ hst _
    have harrow (ok : Bool) : State.Waits .established (if ok then .closeWait else .closing) := by
      cases ok <;> decide
    exact hst ▸ harrow e.tun.ack
  · intro t _ hst
    have harrow (ok : Bool) : State.Waits .finWait1 (if ok then .close else .closing) := by
      cases ok <;> decide
    exact hst ▸ harrow e.tun.ack

theorem handleFlags_moves (e : PacketEnv) (p : Packet) (s : Session) (h : s.state ≠ .close) :
    s.state.Moves (handleFlags e p s).1.state := by
  refine handleFlags_cases e p s ?_ ?_ ?_ ?_ ?_ ?_
  · exact .inl rfl
  · exact (State.waits_closing h).moves
  · exact fun _ _ _ _ => (handleFin_waits e s).moves
  · intro st hst _
    have harrow : s.state.Moves st := by
      revert hst
      cases s.state <;> rintro rfl <;> decide
    exact harrow
  · exact fun _ _ => .inl rfl
  · exact fun _ _ => (writeRst_waits e.tun.rst s).moves

theorem handleSession_moves (e : PacketEnv) (p : Packet) (s : Session) :
    s.state.Moves (handleSession e p s).1.state := by
  have hopen (hst : ¬ s.state.closed) : s.state ≠ .close := fun h => hst (.inr h)
  refine handleSession_cases e p s ?_ ?_ ?_ ?_
  · exact fun _ => (writeRst_waits e.tun.rst s).moves
  · intro t w ht _ _ _
    subst ht
    exact (writeRst_waits e.tun.rst { s with time := e.now, sendWindow := w }).moves
  · intro t w ht hst _
    subst ht
    exact handleFlags_moves e p { s with time := e.now, sendWindow := w } (hopen hst)
  · intro t w ht hst _ _ _
    subst ht
    have hflags := handleFlags_moves e p (queueTcp p { s with time := e.now, sendWindow := w })
      (by simpa using hopen hst)
    simpa using hflags

theorem handleSession_request (e : PacketEnv) (p : Packet) (s : Session) :
    (handleSession e p s).1.connectSent = s.connectSent := by
  have hflags (t : Session) : (handleFlags e p t).1.connectSent = t.connectSent := by
    refine handleFlags_cases e p t rfl rfl ?_ (fun _ _ _ => rfl) (fun _ _ => rfl)
      (fun _ _ => by simp)
    exact fun _ _ _ _ => handleFin_cases e t rfl (fun _ _ => rfl) (fun _ ht _ _ => by rw [ht])
      (fun _ ht _ => by rw [ht])
  refine handleSession_cases e p s ?_ ?_ ?_ ?_
  · exact fun _ => by simp
  · exact fun t w ht _ _ _ => by simp [ht]
  · exact fun t w ht _ _ => by rw [hflags, ht]
  · exact fun t w ht _ _ _ _ => by rw [hflags, queueTcp_connectSent, ht]

/-! ### An event on the socket -/

/-- Nothing is forwarded without a descriptor, and no window opens. -/
theorem ackForwarded_gone (e : SocketEnv) (s : Session) (h : s.socket < 0) :
    (ackForwarded e false s).1.state = s.state := by
  have hwin : getReceiveWindow s e.rcvbuf = 0 := by
    simp [getReceiveWindow, receiveBuffer_closed _ _ h]
  rw [ackForwarded_state, hwin]
  simp

theorem readSocket_waits (e : SocketEnv) (s : Session) :
    s.state.Waits (readSocket e s).1.state := by
  have hclosing (hst : s.state = .established ∨ s.state = .closeWait) : s.state.Waits .closing :=
    State.waits_closing (by rcases hst with h | h <;> simp [h])
  refine readSocket_cases e s (.inl rfl) ?_ ?_ ?_ ?_ ?_
  · exact fun _ _ => .inl rfl
  · exact fun _ hst => hclosing hst
  · intro _ hst
    refine handleEof_cases e { s with time := e.now } hst ?_ ?_ ?_
    · exact fun _ => hclosing hst
    · intro _ _
      have harrow (st : State) (h : st = .established ∨ st = .closeWait) :
          st.Waits (if st = .established then .finWait1 else .lastAck) := by
        rcases h with h | h <;> subst h <;> decide
      exact harrow s.state hst
    · exact fun _ _ => hclosing hst
  · exact fun _ _ t _ _ _ ht _ => .inl (by simp [ht])
  · exact fun _ _ _ hst _ _ _ => hclosing hst

theorem readSocket_request (e : SocketEnv) (s : Session) :
    (readSocket e s).1.connectSent = s.connectSent := by
  refine readSocket_cases e s rfl (fun _ _ => rfl) (fun _ _ => rfl) ?_ ?_ ?_
  · exact fun _ hst => handleEof_cases e { s with time := e.now } hst (fun _ => rfl)
      (fun _ _ => rfl) (fun _ _ => rfl)
  · exact fun _ _ t _ _ _ ht _ => by rw [ht]
  · exact fun _ _ t _ _ ht _ => by rw [ht]

theorem ackForwarded_request (e : SocketEnv) (fwd : Bool) (s : Session) :
    (ackForwarded e fwd s).1.connectSent = s.connectSent := by
  have hacked (t : Session) : (acked e t).connectSent = t.connectSent := by
    unfold acked; split <;> rfl
  refine ackForwarded_cases e fwd s (fun _ => rfl) ?_ ?_
  · exact fun t ht _ _ _ => by rw [hacked, ht]
  · exact fun t ht _ _ => by rw [hacked, ht]

theorem forwardData_request (abi : Abi) (e : SocketEnv) (s : Session) :
    (forwardData abi e s).1.connectSent = s.connectSent :=
  forwardData_rule (fun _ t _ => t.connectSent = s.connectSent) abi e s [] (fun _ _ _ ht => ht)
    (fun _ _ _ _ _ _ _ _ ht _ _ _ _ => ht) rfl

/-- The three phases take one arrow together: what the acknowledgement closes is not read from. -/
theorem relay_waits (abi : Abi) (e : SocketEnv) (s : Session) (h : Descriptor s.state s.socket) :
    s.state.Waits (relay abi e s).1.state := by
  have hforward := forwardData_state abi e s
  show s.state.Waits
    (readSocket e (ackForwarded e (forwardData abi e s).2.1 (forwardData abi e s).1).1).1.state
  by_cases hc : s.state = .close
  · have hgone : s.socket < 0 := by
      rw [hc] at h
      simp only [Descriptor] at h
      omega
    rw [forwardData_no_socket abi e s hgone]
    exact ackForwarded_gone e s hgone ▸ readSocket_waits e (ackForwarded e false s).1
  · have hack := ackForwarded_state e (forwardData abi e s).2.1 (forwardData abi e s).1
    split at hack
    · rw [readSocket_closed e _ (.inl hack), hack]
      exact State.waits_closing hc
    · exact (hack.trans hforward) ▸ readSocket_waits e _

/-! ## One step -/

theorem step_descriptor (abi : Abi) (s : Session) (i : Input) (h : Descriptor s.state s.socket) :
    Descriptor (step abi s i).1.state (step abi s i).1.socket := by
  cases i with
  | packet e p => exact (handleTcp_leaves abi e p h).state
  | socket e =>
    show Descriptor (checkTcpSocket abi e s).1.state (checkTcpSocket abi e s).1.socket
    by_cases hopen : 0 ≤ s.socket
    · exact (checkTcpSocket_careful abi e hopen h).state
    · have hst : s.state ≠ .listen := by
        intro hst
        rw [hst] at h
        exact hopen h
      refine checkTcpSocket_cases abi e s ?_ (fun _ hl => absurd hl hst)
        (fun _ hl => absurd hl hst) ?_
      · exact fun _ => (writeRst_leaves (s := { s with time := e.now }) e.tun.rst h).state
      · exact fun _ _ => (relay_careful abi e h).state
  | monitor e =>
    simp only [step]
    split
    · exact (monitor_leaves e h).state
    · exact h
  | check e => exact (checkTcpSession_careful e h).1.state

/-- The arrows that leave the request alone. -/
theorem Place.waits (tunnel : Bool) {s t : Session} (hrequest : t.connectSent = s.connectSent)
    (h : s.state.Waits t.state) : s.place.Arrow tunnel t.place := by
  rcases h with h | h
  · exact .inl (by simp [Session.place, hrequest, h])
  · have hnext := (List.mem_filter.mp h).1
    refine .inr ?_
    cases hs : s.connectSent <;> cases tunnel <;> simp_all [Session.place, Place.next]

/-- An established session, and one that is not tunnelled, takes every arrow of its state. -/
theorem Place.moves {tunnel : Bool} {s t : Session} (hrequest : t.connectSent = s.connectSent)
    (hproxy : tunnel = true → s.connectSent = .established) (hpossible : s.place.Possible tunnel)
    (h : s.state.Moves t.state) : s.place.Arrow tunnel t.place := by
  rcases h with h | h
  · exact .inl (by simp [Session.place, hrequest, h])
  · refine .inr ?_
    cases hs : s.connectSent <;> cases tunnel <;>
      simp_all [Session.place, Place.next, Place.Possible]

theorem handleTcp_place (abi : Abi) (e : PacketEnv) (p : Packet) (s : Session)
    (h : Descriptor s.state s.socket) (hpossible : s.place.Possible (decide (proxied s.dest))) :
    s.place.Arrow (decide (proxied s.dest)) (handleTcp abi e p s).1.place := by
  refine handleTcp_cases abi e p s ?_ ?_ ?_ ?_ ?_
  · exact fun _ => .inl rfl
  · intro t host ht _ _ _
    subst ht
    exact .inl (by simp [Session.place])
  · intro t ht _ _ _
    subst ht
    have hwaits := writeRst_waits e.tun.rst { s with hostname := packetHostname abi p s }
    exact Place.waits _ (by simp) (by simpa using hwaits)
  · -- the request goes out on an open descriptor, so the session is not in CLOSE
    intro t n ht _ hport hsent hn
    subst ht
    have hopen : s.state ≠ .close := by
      intro hst
      rw [hst] at h
      have hsocket := (sockSend_ok hn).1
      simp only [Descriptor] at h
      omega
    exact .inr (by simp [Session.place, Place.next, hport, hsent, hopen])
  · intro t host ht _ hproxy
    subst ht
    have hmoves := handleSession_moves e p { s with hostname := host }
    exact Place.moves (handleSession_request e p _) (by simpa using hproxy) hpossible hmoves

theorem checkTcpSocket_place (abi : Abi) (e : SocketEnv) (s : Session)
    (h : Descriptor s.state s.socket) (tunnel : Bool) :
    s.place.Arrow tunnel (checkTcpSocket abi e s).1.place := by
  have hreset (t : Session) (hstate : t.state = s.state)
    (hrequest : t.connectSent = s.connectSent) :
      s.place.Arrow tunnel (writeRst e.tun.rst t).1.place :=
    Place.waits tunnel (by rw [writeRst_connectSent, hrequest])
      (hstate ▸ writeRst_waits e.tun.rst t)
  refine checkTcpSocket_cases abi e s ?_ ?_ ?_ ?_
  · exact fun _ => hreset { s with time := e.now } rfl rfl
  · intro _ hst _
    refine readReply_cases e s hst (fun _ _ => hreset s rfl rfl) (fun _ _ _ => hreset s rfl rfl) ?_
    exact fun _ _ hsent => .inr (by simp [Session.place, Place.next, hst, hsent])
  · intro _ hst _
    have harrow (t : Session) (hrequest : t.connectSent = s.connectSent)
      (ht : State.Waits .listen t.state) :
        s.place.Arrow tunnel t.place := Place.waits tunnel hrequest (by rwa [hst])
    refine handshake_cases e s hst ?_ ?_
    · exact fun t ht => harrow _ (by rw [ht]) (by simp only; decide)
    · exact fun t ht => harrow _ (by rw [ht]) (by simp only; decide)
  · intro _ _
    refine Place.waits tunnel ?_ (relay_waits abi e s h)
    simp only [relay, readSocket_request, ackForwarded_request, forwardData_request]

theorem monitorStep_place (abi : Abi) (e : MonitorEnv) (s : Session)
    (h : Descriptor s.state s.socket) (tunnel : Bool) :
    s.place.Arrow tunnel (step abi s (.monitor e)).1.place := by
  simp only [step]
  split
  · rename_i hopen
    have hne : s.state ≠ .close := by
      intro hst
      rw [hst] at h
      simp only [Descriptor] at h
      omega
    obtain ⟨t, ev, ht, ms, st, hs, hst, -⟩ := monitor_eq e s
    refine Place.waits tunnel (by simp [ht, hs]) ?_
    simp only [ht, hs]
    exact hst.elim .inl fun hst => hst ▸ State.waits_closing hne
  · exact .inl rfl

theorem checkTcpSession_place (e : CheckEnv) (s : Session) (tunnel : Bool) :
    s.place.Arrow tunnel (checkTcpSession e s).1.place := by
  refine checkTcpSession_cases e s (fun _ => .inl rfl) (fun _ _ => .inl rfl) ?_ ?_
  · exact fun fd del t ht _ _ => Place.waits tunnel (by rw [ht]) (ht ▸ State.waits_close s.state)
  · exact fun fd del t ht _ _ _ => Place.waits tunnel (by rw [ht]) (ht ▸ State.waits_close s.state)

theorem step_place (abi : Abi) (s : Session) (i : Input) (h : Descriptor s.state s.socket)
    (hpossible : s.place.Possible (decide (proxied s.dest))) :
    s.place.Arrow (decide (proxied s.dest)) (step abi s i).1.place := by
  cases i with
  | packet e p => exact handleTcp_place abi e p s h hpossible
  | socket e => exact checkTcpSocket_place abi e s h _
  | monitor e => exact monitorStep_place abi e s h _
  | check e => exact checkTcpSession_place e s _

/-! ## Runs -/

/-- What holds of a session from its SYN on. -/
structure Charted (tunnel : Bool) (s : Session) : Prop where
  port : decide (proxied s.dest) = tunnel
  descriptor : Descriptor s.state s.socket
  possible : s.place.Possible tunnel

theorem newSession_charted (e : SynEnv) (p : Packet) :
    Charted (decide (proxied e.dest)) (newSession e p) where
  port := rfl
  descriptor := Int.natCast_nonneg _
  possible := fun _ => by simp [Session.place]

theorem Charted.arrow {tunnel : Bool} {s : Session} (h : Charted tunnel s) (abi : Abi) (i : Input) :
    s.place.Arrow tunnel (step abi s i).1.place := by
  obtain ⟨rfl, hdescriptor, hpossible⟩ := h
  exact step_place abi s i hdescriptor hpossible

theorem Charted.step {tunnel : Bool} {s : Session} (h : Charted tunnel s) (abi : Abi) (i : Input) :
    Charted tunnel (step abi s i).1 where
  port := by
    have hdest : (Tcp.step abi s i).1.dest = s.dest :=
      congrArg (fun f => f.2.2.2.2.1) (step_fixed abi s i)
    rw [hdest, h.port]
  descriptor := step_descriptor abi s i h.descriptor
  possible := by
    rcases h.arrow abi i with hsame | hnext
    · exact hsame ▸ h.possible
    · exact Place.next_possible h.possible hnext

/-- The event loop waits only for sockets that are open. -/
def Delivered (s : Session) : Input → Prop
  | .socket _ => 0 ≤ s.socket
  | _ => True

instance (s : Session) : (i : Input) → Decidable (Delivered s i)
  | .socket _ => inferInstanceAs (Decidable (0 ≤ s.socket))
  | .packet _ _ | .monitor _ | .check _ => inferInstanceAs (Decidable True)

/-! ### Runs that take every arrow -/

def ackEvent : Input := .packet plainEnv (plainPacket 1001 5001 [])
def finEvent : Input := .packet plainEnv { plainPacket 1001 5001 [] with fin := true }
def resetEvent : Input := .packet plainEnv { plainPacket 1001 5001 [] with rst := true }
def urgentEvent : Input := .packet plainEnv { plainPacket 1001 5001 [] with urg := true }
def replyEvent : Input := .socket (readable (ascii "HTTP/1.0 200"))
def eofEvent : Input := .socket (readable [])
def idleEvent : Input := .check ⟨10000, 10000, 1, 100, true⟩

/-- Events that take a new session to a place. Behind the reply the segments held back are
forwarded first. -/
def Place.route : Place → List Input
  | ⟨.notSent, .listen⟩ => []
  | ⟨.notSent, .synRecv⟩ => [.socket writable]
  | ⟨.notSent, .closing⟩ => [.socket failed]
  | ⟨.notSent, .close⟩ => [.socket failed, idleEvent]
  | ⟨.sent, .synRecv⟩ => [.socket writable, ackEvent, .socket writable]
  | ⟨.sent, .closing⟩ => [.socket writable, ackEvent, .socket failed]
  | ⟨.sent, .close⟩ => [.socket writable, ackEvent, .socket failed, idleEvent]
  | ⟨.sent, _⟩ => [.socket writable, ackEvent]
  | ⟨request, st⟩ =>
    [.socket writable, ackEvent] ++
      (if request = .established then [replyEvent, .socket writable] else []) ++
      match st with
      | .closeWait => [finEvent]
      | .finWait1 => [eofEvent]
      | .lastAck => [finEvent, eofEvent]
      | .closing => [.socket failed]
      | .close => [.socket failed, idleEvent]
      | _ => []

/-- The event for one arrow. -/
def Place.event (g g' : Place) : Input :=
  if g' = g then urgentEvent
  else
    match g'.state with
    | .listen => ackEvent
    | .synRecv => .socket writable
    | .established => if g.request = .sent then replyEvent else ackEvent
    | .closeWait => finEvent
    | .finWait1 | .lastAck => eofEvent
    | .closing => if g.state = .finWait1 ∨ g.state = .lastAck then resetEvent else .socket failed
    | .close => idleEvent

def Place.all : List Place :=
  [ConnectSent.notSent, .sent, .established].flatMap fun request =>
    [State.listen, .synRecv, .established, .closeWait, .finWait1, .lastAck, .closing, .close].map
      (⟨request, ·⟩)

theorem Place.mem_all (g : Place) : g ∈ Place.all := by
  obtain ⟨request, st⟩ := g
  cases request <;> cases st <;> decide

def freshSession (tunnel : Bool) : Session :=
  newSession (plainSyn (if tunnel then 443 else 22)) (synPacket [])

/-- The route leads to its place and the event takes the arrow, all of them delivered. -/
def Place.Taken (tunnel : Bool) (g g' : Place) : Prop :=
  Along (step .arm64V8a) Delivered (freshSession tunnel) (g.route ++ [g.event g']) ∧
    (run (step .arm64V8a) (freshSession tunnel) g.route).1.place = g ∧
    (run (step .arm64V8a) (freshSession tunnel) (g.route ++ [g.event g'])).1.place = g'

instance (tunnel : Bool) (g g' : Place) : Decidable (g.Taken tunnel g') :=
  inferInstanceAs (Decidable (_ ∧ _ ∧ _))

theorem Place.taken {tunnel : Bool} {g g' : Place} (h : g.Possible tunnel)
    (harrow : g.Arrow tunnel g') :
    g.Taken tunnel g' := by
  have hall : ∀ tunnel, ∀ g ∈ Place.all, g.Possible tunnel →
      ∀ g' ∈ g :: g.next tunnel, g.Taken tunnel g' := by
    decide +kernel
  exact hall tunnel g g.mem_all h g' (List.mem_cons.mpr harrow)

/-- The places of all runs of a session make up exactly the diagram: what stands in it is
reached, each of its arrows is taken, and no event does anything else. -/
theorem places_charted (tunnel : Bool) (g g' : Place) :
    (∃ abi e p is i, decide (proxied e.dest) = tunnel ∧
      Along (step abi) Delivered (newSession e p) (is ++ [i]) ∧
      (run (step abi) (newSession e p) is).1.place = g ∧
      (run (step abi) (newSession e p) (is ++ [i])).1.place = g') ↔
    g.Possible tunnel ∧ g.Arrow tunnel g' := by
  constructor
  · rintro ⟨abi, e, p, is, i, rfl, -, rfl, rfl⟩
    have hrun : Charted (decide (proxied e.dest)) (run (step abi) (newSession e p) is).1 :=
      run_invariant (step abi) (fun _ _ => True) (fun t _ => Charted _ t)
        (fun _ _ i ht _ => ht.step abi i) is _
        (newSession_charted e p) (along_of_forall _ _ _ fun _ _ => trivial)
    rw [run_append]
    exact ⟨hrun.possible, hrun.arrow abi i⟩
  · rintro ⟨hpossible, harrow⟩
    obtain ⟨hdelivered, hroute, hevent⟩ := Place.taken hpossible harrow
    refine ⟨.arm64V8a, plainSyn (if tunnel then 443 else 22), synPacket [], g.route, g.event g', ?_,
      hdelivered, hroute, hevent⟩
    cases tunnel <;> decide

/-! ### How often the state changes -/

/-- The changes of state that are left: a request that is not sent can bring a closed
session back once. -/
def Place.budget (tunnel : Bool) : Place → Nat
  | ⟨request, .listen⟩ => if tunnel then (if request = .notSent then 8 else 5) else 6
  | ⟨request, .synRecv⟩ => if tunnel then (if request = .notSent then 7 else 2) else 5
  | ⟨_, .established⟩ => 4
  | ⟨_, .closeWait⟩ => 3
  | ⟨_, .finWait1⟩ | ⟨_, .lastAck⟩ => 2
  | ⟨request, .closing⟩ => if tunnel ∧ request = .notSent then 6 else 1
  | ⟨_, .close⟩ => 0

theorem Place.budget_next {tunnel : Bool} {g g' : Place} (h : g.Possible tunnel)
    (harrow : g.Arrow tunnel g') :
    (if g'.state = g.state then 0 else 1) + g'.budget tunnel ≤ g.budget tunnel := by
  have hall : ∀ tunnel, ∀ g ∈ Place.all, g.Possible tunnel → ∀ g' ∈ g :: g.next tunnel,
      (if g'.state = g.state then 0 else 1) + g'.budget tunnel ≤ g.budget tunnel := by
    decide +kernel
  exact hall tunnel g g.mem_all h g' (List.mem_cons.mpr harrow)

/-- A session is closed before its request, comes back, and ends by way of LAST_ACK. -/
def longestLife (tunnel : Bool) : List Input :=
  if tunnel then
    [.socket writable, .socket failed, ackEvent, replyEvent, .socket writable, finEvent, eofEvent,
      .packet plainEnv (plainPacket 1002 5002 []), idleEvent]
  else [.socket writable, ackEvent, finEvent, eofEvent,
    .packet plainEnv (plainPacket 1002 5002 []), idleEvent]

/-- Whatever the client, the network and the clock do, a session changes its state at most
six times, and a tunnelled one at most eight times; and it can do so. -/
theorem most_changes (tunnel : Bool) :
    IsGreatest {n | ∃ abi e p is, decide (proxied e.dest) = tunnel ∧
      Along (step abi) Delivered (newSession e p) is ∧
      changes Session.state (step abi) (newSession e p) is = n} (if tunnel then 8 else 6) := by
  constructor
  · refine ⟨.arm64V8a, plainSyn (if tunnel then 443 else 22), synPacket [], longestLife tunnel, ?_⟩
    cases tunnel <;> decide +kernel
  · rintro n ⟨abi, e, p, is, rfl, -, rfl⟩
    have hbound :=
      changes_le Session.state (step abi) (fun s => s.place.budget (decide (proxied e.dest)))
      (Charted (decide (proxied e.dest))) (fun s i h => h.step abi i)
      (fun s i h => Place.budget_next h.possible (h.arrow abi i)) (newSession e p) is
        (newSession_charted e p)
    have hstart : (newSession e p).place.budget (decide (proxied e.dest)) =
      if decide (proxied e.dest) then 8 else 6 := rfl
    exact hstart ▸ hbound

end PdaNetClient.Tcp
