import PdaNetClient.TcpDownstream
import PdaNetClient.TcpFlow

/-!
# Repeated SYNs

Two runs of one session, with and without retransmissions of its SYN. What a retransmission
may leave behind is a time, a window and a host name; the handlers carry these three along
without a look at them, up to the timeout and to the read that needs the window.
-/
namespace PdaNetClient.Tcp

open Http Runs

set_option autoImplicit false

/-! ## Three fields that are carried along -/

def Session.adjust (s : Session) (time : Int) (window : U32) (hostname : Bytes) : Session :=
  { s with time := time, sendWindow := window, hostname := hostname }

/-- A function that does not look at the three fields, and leaves them as they are. -/
def Commutes {β : Type} (F : Session → Session × β) : Prop :=
  ∀ s time window hostname, F (s.adjust time window hostname) =
    ((F s).1.adjust time window hostname, (F s).2)

theorem Commutes.keeps {β : Type} {F : Session → Session × β} (h : Commutes F) (s : Session) :
    (F s).1.time = s.time ∧ (F s).1.sendWindow = s.sendWindow ∧ (F s).1.hostname = s.hostname := by
  have hself : F s = ((F s).1.adjust s.time s.sendWindow s.hostname, (F s).2) :=
    h s s.time s.sendWindow s.hostname
  exact ⟨congrArg (fun r => r.1.time) hself, congrArg (fun r => r.1.sendWindow) hself,
    congrArg (fun r => r.1.hostname) hself⟩

theorem writeRst_commutes (ok : Bool) : Commutes (writeRst ok) := by
  intro s time window hostname
  cases hst : s.state <;> simp [writeRst, Session.adjust, hst, writeTcp]

theorem queueTcp_adjust (p : Packet) (s : Session) (time : Int) (window : U32) (hostname : Bytes) :
    queueTcp p (s.adjust time window hostname) = (queueTcp p s).adjust time window hostname := by
  unfold queueTcp
  show (if compareU32 p.seq s.remoteSeq < 0 then _ else _) = _
  split <;> rfl

theorem queueTcp_commutes (p : Packet) : Commutes fun s => (queueTcp p s, ()) :=
  fun s time window hostname =>
    congrArg (fun t => (t, ())) (queueTcp_adjust p s time window hostname)

theorem handleFin_commutes (e : PacketEnv) : Commutes (handleFin e) := by
  intro s time window hostname
  cases hst : s.state <;> by_cases hq : s.forward = [] <;> cases hok : e.tun.ack <;>
    simp [handleFin, Session.adjust, hst, hq, hok, writeAck, writeTcp]

theorem handleOtherAck_commutes (e : PacketEnv) (p : Packet) : Commutes (handleOtherAck e p) := by
  intro s time window hostname
  have hrst := writeRst_commutes e.tun.rst s time window hostname
  unfold handleOtherAck
  show (if p.ackSeq + 1 = s.localSeq then _ else if compareU32 p.ackSeq s.localSeq < 0 then
    if compareU32 p.ackSeq s.acked ≤ 0 then _ else _ else _) = _
  split
  · rfl
  · split
    · split <;> rfl
    · exact hrst

theorem handleFlags_commutes (e : PacketEnv) (p : Packet) : Commutes (handleFlags e p) := by
  intro s time window hostname
  have hfin := handleFin_commutes e s time window hostname
  have hother := handleOtherAck_commutes e p s time window hostname
  unfold handleFlags
  show (if p.rst then _ else if ¬ p.ack ∨ p.ackSeq = s.localSeq then _ else _) = _
  split
  · rfl
  · split
    · split
      · rfl
      · split
        · exact hfin
        · split <;> rfl
    · exact hother

theorem queuedFlags_commutes (e : PacketEnv) (p : Packet) :
    Commutes fun s => handleFlags e p (queueTcp p s) :=
  fun s time window hostname =>
    (congrArg (handleFlags e p) (queueTcp_adjust p s time window hostname)).trans
      (handleFlags_commutes e p (queueTcp p s) time window hostname)

theorem afterSend_adjust (rstOk : Bool) (s : Session) (g : Segment) (q : List Segment) (fwd : Bool)
    (sent : Int) (errno : Errno) (time : Int) (window : U32) (hostname : Bytes) :
    afterSend rstOk (s.adjust time window hostname) g q fwd sent errno =
      { afterSend rstOk s g q fwd sent errno with
        s := (afterSend rstOk s g q fwd sent errno).s.adjust time window hostname } := by
  have hrst := writeRst_commutes rstOk s time window hostname
  unfold afterSend
  split
  · split
    · rfl
    · rw [hrst]
  · simp only
    split <;> rfl

theorem sendHead_adjust (abi : Abi) (rstOk : Bool) (res : SendResult) (after : Memory) (s : Session)
    (g : Segment) (q : List Segment) (fwd : Bool) (time : Int) (window : U32) (hostname : Bytes) :
    sendHead abi rstOk res after (s.adjust time window hostname) g q fwd =
      { sendHead abi rstOk res after s g q fwd with
        s := (sendHead abi rstOk res after s g q fwd).s.adjust time window hostname } := by
  unfold sendHead
  show (if patchHead s.dest after g.rest = .overrun then _ else _) = _
  simp only
  split
  · rfl
  · rw [afterSend_adjust]
    rfl

theorem forwardLoop_commutes (abi : Abi) (e : SocketEnv) (q : List Segment) (i : Nat) (b : U32)
    (fwd : Bool) :
    Commutes fun s => forwardLoop abi e q i b s fwd := by
  intro s time window hostname
  induction q generalizing i b s fwd with
  | nil => rfl
  | cons g q ih =>
    beta_reduce at ih
    simp only [forwardLoop]
    show (if canForward s g b then _ else _) = _
    by_cases hcan : canForward s g b
    · rw [if_pos hcan, if_pos hcan, sendHead_adjust]
      simp only
      split
      · rw [ih]
      · rfl
    · rw [if_neg hcan, if_neg hcan]

theorem forwardData_commutes (abi : Abi) (e : SocketEnv) : Commutes (forwardData abi e) := by
  intro s time window hostname
  unfold forwardData
  split
  · exact forwardLoop_commutes abi e s.forward 0 (receiveBuffer s.socket e.sndbuf) false s time
      window hostname
  · rfl

theorem handleEof_commutes (e : SocketEnv) : Commutes (handleEof e) := by
  intro s time window hostname
  have hrst := writeRst_commutes e.tun.rst s time window hostname
  by_cases hq : s.forward = []
  · have hq' : (s.adjust time window hostname).forward = [] := hq
    simp only [handleEof, if_pos hq, if_pos hq']
    cases e.tun.fin <;> rfl
  · have hq' : ¬ (s.adjust time window hostname).forward = [] := hq
    simp only [handleEof, if_neg hq, if_neg hq', hrst]
    rfl

theorem keepAlive_commutes (e : MonitorEnv) : Commutes (keepAlive e) := by
  intro s time window hostname
  unfold keepAlive
  show (if e.ms - s.lastKeepAlive > epollMinCheck then _ else _) = _
  split
  · cases e.ackOk <;> rfl
  · rfl

/-! ## Sessions that behave alike -/

/-- Two sessions that differ in the three fields only: in the window as long as it is set again
before the next read, and not in the time that a closed session is kept. -/
structure Alike (s t : Session) : Prop where
  adjusted : ∃ time window hostname, t = s.adjust time window hostname
  window : t.sendWindow = s.sendWindow ∨ ¬ proxied s.dest ∧
    ¬ (s.state = .established ∨ s.state = .closeWait)
  time : s.state = .close → t.time = s.time

theorem Alike.refl (s : Session) : Alike s s :=
  ⟨⟨s.time, s.sendWindow, s.hostname, rfl⟩, .inl rfl, fun _ => rfl⟩

/-- Two steps that cannot be told apart, by what they emit or by what follows. -/
structure Same {β : Type} (r r' : Session × β) : Prop where
  alike : Alike r.1 r'.1
  outs : r'.2 = r.2

section alike

variable {s t : Session}

theorem Alike.dest (h : Alike s t) : t.dest = s.dest := by
  obtain ⟨time, window, hostname, rfl⟩ := h.adjusted
  rfl

theorem Alike.state (h : Alike s t) : t.state = s.state := by
  obtain ⟨time, window, hostname, rfl⟩ := h.adjusted
  rfl

theorem Alike.connectSent (h : Alike s t) : t.connectSent = s.connectSent := by
  obtain ⟨time, window, hostname, rfl⟩ := h.adjusted
  rfl

theorem Alike.socket (h : Alike s t) : t.socket = s.socket := by
  obtain ⟨time, window, hostname, rfl⟩ := h.adjusted
  rfl

theorem Commutes.same {β : Type} {F : Session → Session × β} (hF : Commutes F) (h : Alike s t)
    (hdest : (F s).1.dest = s.dest)
    (hread : (F s).1.state = .established ∨ (F s).1.state = .closeWait →
      s.state = .established ∨ s.state = .closeWait)
    (hclose : (F s).1.state = .close → s.state = .close ∨ t.time = s.time) : Same (F s) (F t) := by
  obtain ⟨time, window, hostname, rfl⟩ := h.adjusted
  obtain ⟨htime, hwindow, -⟩ := hF.keeps s
  rw [hF s time window hostname]
  refine ⟨⟨⟨time, window, hostname, rfl⟩, ?_, fun hst => ?_⟩, rfl⟩
  · show window = (F s).1.sendWindow ∨ _
    rw [hwindow, hdest]
    exact h.window.imp_right fun hdead => ⟨hdead.1, fun hst => hdead.2 (hread hst)⟩
  · show time = (F s).1.time
    rw [htime]
    exact (hclose hst).elim h.time id

theorem writeRst_same (ok : Bool) (h : Alike s t) : Same (writeRst ok s) (writeRst ok t) := by
  apply (writeRst_commutes ok).same h (writeRst_dest ok s)
  · intro hst
    have hclosed := writeRst_closed ok s
    rcases hst with hst | hst <;> simp [hst, State.closed] at hclosed
  · intro hst
    by_cases hclose : s.state = .close
    · exact .inl hclose
    · simp [writeRst, hclose] at hst

/-- Two sessions with the same time and window. -/
theorem Commutes.same_of_eq {β : Type} {F : Session → Session × β} (hF : Commutes F)
    (hostname : Bytes) :
    Same (F s) (F { s with hostname := hostname }) := by
  obtain ⟨htime, hwindow, -⟩ := hF.keeps s
  have hF := hF s s.time s.sendWindow hostname
  rw [show s.adjust s.time s.sendWindow hostname = { s with hostname := hostname } from rfl] at hF
  rw [hF]
  exact ⟨⟨⟨s.time, s.sendWindow, hostname, rfl⟩, .inl hwindow.symm, fun _ => htime.symm⟩, rfl⟩

theorem handleSession_same (e : PacketEnv) (p : Packet) (h : Alike s t) :
    Same (handleSession e p s) (handleSession e p t) := by
  obtain ⟨time, window, hostname, rfl⟩ := h.adjusted
  unfold handleSession
  by_cases hclosed : s.state.closed
  · rw [if_pos hclosed, if_pos (show (s.adjust time window hostname).state.closed from hclosed)]
    exact writeRst_same e.tun.rst h
  · rw [if_neg hclosed, if_neg (show ¬ (s.adjust time window hostname).state.closed from hclosed)]
    -- the time and the window are set on both sides, so only the host name is left
    show Same (if p.datalen = 0 then _ else if s.socket < 0 then _ else if s.state =
      .closeWait then _ else _)
      (if p.datalen = 0 then _ else if s.socket < 0 then _ else if s.state =
        .closeWait then _ else _)
    split
    · exact (handleFlags_commutes e p).same_of_eq hostname
    · split
      · exact (writeRst_commutes e.tun.rst).same_of_eq hostname
      · split
        · exact (writeRst_commutes e.tun.rst).same_of_eq hostname
        · exact (queuedFlags_commutes e p).same_of_eq hostname

theorem Alike.queue (h : Alike s t) (p : Packet) : Alike (queueTcp p s) (queueTcp p t) := by
  have hsame := (queueTcp_commutes p).same h (queueTcp_dest p s)
  simp only [queueTcp_state] at hsame
  exact (hsame id .inl).alike

theorem connectPhase_same (abi : Abi) (e : PacketEnv) (p : Packet) (hport : proxied s.dest)
    (h : Alike s t) :
    Same (connectPhase abi e p s) (connectPhase abi e p t) := by
  have hwindow : t.sendWindow = s.sendWindow := h.window.resolve_right fun hdead => hdead.1 hport
  obtain ⟨time, window, hostname, rfl⟩ := h.adjusted
  have hname : packetHostname abi p (s.adjust time window hostname) = packetHostname abi p s := rfl
  have hnamed : Alike { s with hostname := packetHostname abi p s }
      { s.adjust time window hostname with hostname := packetHostname abi p s } :=
    ⟨⟨time, window, packetHostname abi p s, rfl⟩, .inl hwindow, h.time⟩
  by_cases hsent : s.connectSent = .notSent
  · cases hsend :
      sockSend s.socket e.send (connectRequest (packetHostname abi p s) s.dest).length with
    | fail err =>
      rw [connectPhase_refused abi e p s hsent hsend,
        connectPhase_refused abi e p (s.adjust time window hostname) hsent hsend]
      have hrst := writeRst_same e.tun.rst hnamed
      exact ⟨hrst.alike, congrArg (List.cons
        (.connect s.state (connectRequest (packetHostname abi p s) s.dest) none)) hrst.outs⟩
    | ok n =>
      rw [connectPhase_request abi e p s hsent hsend,
        connectPhase_request abi e p (s.adjust time window hostname) hsent hsend]
      exact ⟨⟨⟨time, window, packetHostname abi p s, rfl⟩, .inl hwindow,
        fun hst => by cases hst⟩, rfl⟩
  · rw [connectPhase_past abi e p s hsent,
      connectPhase_past abi e p (s.adjust time window hostname) hsent]
    exact ⟨hnamed, rfl⟩

theorem handleTcp_same (abi : Abi) (e : PacketEnv) (p : Packet) (h : Alike s t) :
    Same (handleTcp abi e p s) (handleTcp abi e p t) := by
  unfold handleTcp
  rw [h.dest]
  split
  · exact ⟨h, rfl⟩
  · split
    · rename_i hport
      obtain ⟨halike, houts⟩ := connectPhase_same abi e p hport h
      simp only [halike.connectSent, houts]
      split
      · exact ⟨halike.queue p, rfl⟩
      · have hsession := handleSession_same e p halike
        exact ⟨hsession.alike,
          congrArg (fun outs => (connectPhase abi e p s).2 ++ outs) hsession.outs⟩
    · exact handleSession_same e p h

theorem ackForwarded_adjust (e : SocketEnv) (fwd : Bool) (s : Session) (time : Int) (window : U32)
    (hostname : Bytes) :
    ∃ time', ackForwarded e fwd (s.adjust time window hostname) =
        ((ackForwarded e fwd s).1.adjust time' window hostname, (ackForwarded e fwd s).2) ∧
      (time' = (ackForwarded e fwd s).1.time ∨ time' = time ∧
        (ackForwarded e fwd s).1.time = s.time) := by
  by_cases hwrite : fwd = true ∨ s.recvWindow = 0 ∧ 0 < getReceiveWindow s e.rcvbuf
  · have hwrite' : fwd = true ∨ (s.adjust time window hostname).recvWindow = 0 ∧
        0 < getReceiveWindow (s.adjust time window hostname) e.rcvbuf := hwrite
    by_cases hfin : fwd = true ∧ s.forward = [] ∧ s.state = .closeWait
    · have hfin' : fwd = true ∧ (s.adjust time window hostname).forward = [] ∧
          (s.adjust time window hostname).state = .closeWait := hfin
      simp only [ackForwarded, if_pos hwrite, if_pos hwrite', if_pos hfin, if_pos hfin']
      cases e.tun.ack
      · exact ⟨time, rfl, .inr ⟨rfl, rfl⟩⟩
      · exact ⟨e.now, rfl, .inl rfl⟩
    · have hfin' : ¬ (fwd = true ∧ (s.adjust time window hostname).forward = [] ∧
          (s.adjust time window hostname).state = .closeWait) := hfin
      simp only [ackForwarded, if_pos hwrite, if_pos hwrite', if_neg hfin, if_neg hfin']
      cases e.tun.ack
      · exact ⟨time, rfl, .inr ⟨rfl, rfl⟩⟩
      · exact ⟨e.now, rfl, .inl rfl⟩
  · have hwrite' : ¬ (fwd = true ∨ (s.adjust time window hostname).recvWindow = 0 ∧
        0 < getReceiveWindow (s.adjust time window hostname) e.rcvbuf) := hwrite
    simp only [ackForwarded, if_neg hwrite, if_neg hwrite']
    exact ⟨time, rfl, .inr ⟨rfl, trivial⟩⟩

theorem ackForwarded_same (e : SocketEnv) (fwd : Bool) (h : Alike s t) :
    Same (ackForwarded e fwd s) (ackForwarded e fwd t) := by
  obtain ⟨hsame, -⟩ := ackForwarded_window e fwd (s := s) (t := s) ⟨rfl, .inl rfl⟩
  have hkept := hsame.window
  simp only [Session.window, Prod.mk.injEq] at hkept
  obtain ⟨time, window, hostname, rfl⟩ := h.adjusted
  obtain ⟨time', heq, htime⟩ := ackForwarded_adjust e fwd s time window hostname
  rw [heq]
  refine ⟨⟨⟨time', window, hostname, rfl⟩, ?_, fun hst => ?_⟩, rfl⟩
  · show window = (ackForwarded e fwd s).1.sendWindow ∨ _
    rw [hkept.2.2.2.2, hkept.1]
    refine h.window.imp_right fun hdead => ⟨hdead.1, fun hst => hdead.2 ?_⟩
    rcases hsame.state with hstate | hstate
    · rwa [hstate] at hst
    · simp [hstate] at hst
  · show time' = (ackForwarded e fwd s).1.time
    rcases htime with htime | ⟨rfl, htime⟩
    · exact htime
    · rw [htime]
      rcases hsame.state with hstate | hstate
      · exact h.time (hstate ▸ hst)
      · simp [hstate] at hst

/-- The read behind the check of the state and of the room. -/
def readOpen (e : SocketEnv) (bufferSize : Nat) (s : Session) : Session × List Out :=
  match sockRecv s.socket e.recv bufferSize with
  | .fail err =>
    let r := if err ≠ .eintr ∧ err ≠ .eagain then writeRst e.tun.rst s else (s, [])
    (r.1, .recv s.state bufferSize none :: r.2)
  | .ok [] =>
    let r := handleEof e s
    (r.1, .recv s.state bufferSize (some []) :: r.2)
  | .ok bytes =>
    let s := { s with received := s.received + bytes.length }
    let r := writeData e.tun.data bytes s
    (if e.tun.data then { r.1 with localSeq := r.1.localSeq + BitVec.ofNat 32 bytes.length }
      else r.1, .recv s.state bufferSize (some bytes) :: r.2)

theorem readSocket_open (e : SocketEnv) (s : Session)
    (hst : s.state = .established ∨ s.state = .closeWait) (hread : e.ev.inn ∧ 0 < getSendWindow s) :
    readSocket e s = readOpen e (min (getSendWindow s).toNat s.mss) { s with time := e.now } := by
  rw [readSocket, if_pos ⟨hst, hread⟩]
  rfl

theorem readOpen_commutes (e : SocketEnv) (bufferSize : Nat) :
    Commutes (readOpen e bufferSize) := by
  intro s time window hostname
  have hrst := writeRst_commutes e.tun.rst s time window hostname
  have heof := handleEof_commutes e s time window hostname
  unfold readOpen
  show (match sockRecv s.socket e.recv bufferSize
    with | .fail err => _ | .ok [] => _ | .ok bytes => _) = _
  cases sockRecv s.socket e.recv bufferSize with
  | fail err =>
    simp only
    split
    · rw [hrst]
      rfl
    · rfl
  | ok bytes =>
    cases bytes with
    | nil =>
      simp only
      rw [heof]
      rfl
    | cons b bytes => cases e.tun.data <;> rfl

theorem readSocket_same (e : SocketEnv) (h : Alike s t) :
    Same (readSocket e s) (readSocket e t) := by
  by_cases hread : (s.state = .established ∨ s.state = .closeWait) ∧ e.ev.inn ∧ 0 < getSendWindow s
  · have hwindow : t.sendWindow = s.sendWindow :=
      h.window.resolve_right fun hdead => hdead.2 hread.1
    obtain ⟨time, window, hostname, rfl⟩ := h.adjusted
    cases hwindow
    rw [readSocket_open e s hread.1 hread.2,
      readSocket_open e (s.adjust time s.sendWindow hostname) hread.1 hread.2]
    exact (readOpen_commutes e (min (getSendWindow s).toNat s.mss)).same_of_eq
      (s := { s with time := e.now }) hostname
  · have hread' :
        ¬ ((t.state = .established ∨ t.state = .closeWait) ∧ e.ev.inn ∧ 0 < getSendWindow t) := by
      intro ⟨hst, hroom⟩
      obtain ⟨time, window, hostname, rfl⟩ := h.adjusted
      have hwindow : window = s.sendWindow := h.window.resolve_right fun hdead => hdead.2 hst
      subst hwindow
      exact hread ⟨hst, hroom⟩
    rw [readSocket, if_neg hread, readSocket, if_neg hread']
    exact ⟨h, rfl⟩

theorem relay_same (abi : Abi) (e : SocketEnv) (h : Alike s t) :
    Same (relay abi e s) (relay abi e t) := by
  obtain ⟨hkept, -⟩ := forwardData_window abi e s
  have hdest := hkept.window
  simp only [Session.window, Prod.mk.injEq] at hdest
  have hforward := (forwardData_commutes abi e).same h hdest.1 (by rw [forwardData_state]; exact id)
    (by rw [forwardData_state]; exact .inl)
  have hack := ackForwarded_same e (forwardData abi e s).2.1 hforward.alike
  have hread := readSocket_same e hack.alike
  have houts := hforward.outs
  refine ⟨?_, ?_⟩
  · show Alike (readSocket e (ackForwarded e (forwardData abi e s).2.1 (forwardData abi e s).1).1).1
      (readSocket e (ackForwarded e (forwardData abi e t).2.1 (forwardData abi e t).1).1).1
    rw [houts]
    exact hread.alike
  · show (forwardData abi e t).2.2 ++
      (ackForwarded e (forwardData abi e t).2.1 (forwardData abi e t).1).2 ++
      (readSocket e (ackForwarded e (forwardData abi e t).2.1 (forwardData abi e t).1).1).2 = _
    rw [houts, hack.outs, hread.outs]
    rfl

/-- A session whose request was sent is a proxied one. -/
theorem readReply_same (e : SocketEnv) (hplain : ¬ proxied s.dest → s.connectSent ≠ .sent)
    (h : Alike s t) : Same (readReply e s) (readReply e t) := by
  have hrst := writeRst_same e.tun.rst h
  obtain ⟨time, window, hostname, rfl⟩ := h.adjusted
  have hrecv : sockRecv (s.adjust time window hostname).socket e.recv 12 =
    sockRecv s.socket e.recv 12 := rfl
  unfold readReply
  rw [hrecv]
  cases sockRecv s.socket e.recv 12 with
  | fail err => exact ⟨hrst.alike, congrArg (List.cons (.recv s.state 12 none)) hrst.outs⟩
  | ok bytes =>
    by_cases hsent : s.connectSent = .sent
    · have hsent' : (s.adjust time window hostname).connectSent = .sent := hsent
      have hwindow : window = s.sendWindow :=
        h.window.resolve_right fun hdead => hplain hdead.1 hsent
      simp only [if_pos hsent, if_pos hsent']
      exact ⟨⟨⟨time, window, hostname, rfl⟩, .inl hwindow, fun hclose => by cases hclose⟩, rfl⟩
    · have hsent' : ¬ (s.adjust time window hostname).connectSent = .sent := hsent
      simp only [if_neg hsent, if_neg hsent']
      exact ⟨hrst.alike, congrArg (List.cons (.recv s.state 12 (some bytes))) hrst.outs⟩

theorem handshake_same (e : SocketEnv) (h : Alike s t) : Same (handshake e s) (handshake e t) := by
  obtain ⟨time, window, hostname, rfl⟩ := h.adjusted
  have hwindow (st : State) (hst : st ≠ .established ∧ st ≠ .closeWait) :
      window = s.sendWindow ∨ ¬ proxied s.dest ∧ ¬ (st = .established ∨ st = .closeWait) :=
    h.window.imp_right fun hdead => ⟨hdead.1, not_or.mpr hst⟩
  unfold handshake
  cases e.tun.synAck
  · exact ⟨⟨⟨time, window, hostname, rfl⟩, hwindow .closing (by decide),
      fun hclose => by cases hclose⟩, rfl⟩
  · exact ⟨⟨⟨e.now, window, hostname, rfl⟩, hwindow .synRecv (by decide),
      fun hclose => by cases hclose⟩, rfl⟩

theorem checkTcpSocket_same (abi : Abi) (e : SocketEnv)
    (hplain : ¬ proxied s.dest → s.connectSent ≠ .sent) (h : Alike s t) :
    Same (checkTcpSocket abi e s) (checkTcpSocket abi e t) := by
  by_cases herr : e.ev.err
  · have hnow : Alike { s with time := e.now } { t with time := e.now } := by
      obtain ⟨time, window, hostname, rfl⟩ := h.adjusted
      exact ⟨⟨e.now, window, hostname, rfl⟩, h.window, fun _ => rfl⟩
    rw [checkTcpSocket, if_pos herr, checkTcpSocket, if_pos herr]
    exact writeRst_same e.tun.rst hnow
  · rw [checkTcpSocket, if_neg herr, checkTcpSocket, if_neg herr, h.state]
    split
    · split
      · exact readReply_same e hplain h
      · exact handshake_same e h
    · exact relay_same abi e h

/-! ### The periodic functions -/

/-- The events of a session that relays, behind the keep-alive. -/
def relayEvents (e : MonitorEnv) (w : Bool) (s : Session) : Session × Bool × Events × List Out :=
  let k := if w then (s, []) else keepAlive e s
  match k.1.forward with
  | [] => (k.1, !w, ⟨w, false, true⟩, k.2)
  | g :: _ =>
    let f := decide (canForward k.1 g (receiveBuffer k.1.socket e.sndbuf))
    (k.1, !w || !f, ⟨w, f, true⟩, k.2)

theorem relayEvents_commutes (e : MonitorEnv) (w : Bool) : Commutes (relayEvents e w) := by
  intro s time window hostname
  have hkeep := keepAlive_commutes e s time window hostname
  unfold relayEvents
  cases w
  · simp only [hkeep, Bool.false_eq_true, if_false]
    show (match (keepAlive e s).1.forward with | [] => _ | g :: _ => _) = _
    cases (keepAlive e s).1.forward <;> rfl
  · simp only [if_true]
    show (match s.forward with | [] => _ | g :: _ => _) = _
    cases s.forward <;> rfl

theorem monitorEvents_relay (e : MonitorEnv) (h : s.state = .established ∨ s.state = .closeWait) :
    monitorEvents e s = relayEvents e (decide (0 < getSendWindow s)) s := by
  rcases h with h | h <;> simp only [monitorEvents, h] <;> rfl

/-- The events of a session that does not relay: in LISTEN the connection or the reply is waited
for. -/
def idleEvents (s : Session) : Bool × Events × List Out :=
  if s.state = .listen then
    if s.connectSent = .sent ∧ s.dest = 443 then (false, ⟨true, false, true⟩, [])
      else (false, ⟨false, true, true⟩, [])
  else (false, ⟨false, false, true⟩, [])

theorem monitorEvents_idle (e : MonitorEnv)
    (h : ¬ (s.state = .established ∨ s.state = .closeWait)) :
    monitorEvents e s = (s, idleEvents s) := by
  unfold monitorEvents idleEvents
  cases hst : s.state with
  | established => exact absurd (.inl hst) h
  | closeWait => exact absurd (.inr hst) h
  | listen =>
    simp only [if_true]
    split <;> rfl
  | _ => rfl

theorem monitorEvents_same (e : MonitorEnv) (h : Alike s t) :
    Same (monitorEvents e s) (monitorEvents e t) := by
  by_cases hst : s.state = .established ∨ s.state = .closeWait
  · have hwindow : t.sendWindow = s.sendWindow := h.window.resolve_right fun hdead => hdead.2 hst
    have hroom : getSendWindow t = getSendWindow s := by
      obtain ⟨time, window, hostname, rfl⟩ := h.adjusted
      cases hwindow
      rfl
    rw [monitorEvents_relay e hst, monitorEvents_relay e (h.state ▸ hst), hroom]
    obtain ⟨ms, st, heq, hstate, -⟩ := monitorEvents_kept e s
    rw [monitorEvents_relay e hst] at heq
    apply (relayEvents_commutes e (decide (0 < getSendWindow s))).same h
    · rw [heq]
    · exact fun _ => hst
    · rw [heq]
      rintro rfl
      rcases hstate with hstate | hstate
      · exact .inl hstate.symm
      · cases hstate
  · rw [monitorEvents_idle e hst, monitorEvents_idle e (h.state ▸ hst)]
    have hsame : idleEvents t = idleEvents s := by
      unfold idleEvents
      rw [h.state, h.connectSent, h.dest]
    exact ⟨h, hsame⟩

theorem monitorTcpSession_same (e : MonitorEnv) (h : Alike s t) :
    Same (monitorTcpSession e s) (monitorTcpSession e t) := by
  obtain ⟨halike, houts⟩ := monitorEvents_same e h
  unfold monitorTcpSession
  simp only [houts]
  obtain ⟨time, window, hostname, heq⟩ := halike.adjusted
  have hev : (monitorEvents e t).1.ev = (monitorEvents e s).1.ev := by rw [heq]; rfl
  rw [hev]
  split
  · have hstate := halike.state
    have hwindow := halike.window
    rw [heq] at hwindow ⊢
    cases hok : e.epollOk
    · exact ⟨⟨⟨time, window, hostname, rfl⟩, hwindow.imp_right fun hdead => ⟨hdead.1, by simp⟩,
        fun hclose => by cases hclose⟩, rfl⟩
    · exact ⟨⟨⟨time, window, hostname, rfl⟩, hwindow, fun hclose => heq ▸ halike.time hclose⟩, rfl⟩
  · exact ⟨halike, rfl⟩

/-- The idle timeout of `check_tcp_session` has run out. -/
def TimedOut (e : CheckEnv) (s : Session) : Prop :=
  ¬ s.state.closed ∧ s.time + getTcpTimeout s e.sessions e.maxsessions < e.now

instance (e : CheckEnv) (s : Session) : Decidable (TimedOut e s) :=
  inferInstanceAs (Decidable (_ ∧ _))

theorem expireSession_same (e : CheckEnv) (h : Alike s t) (hdue : TimedOut e t ↔ TimedOut e s) :
    Same (expireSession e s) (expireSession e t) := by
  have heq (u : Session) : expireSession e u =
      if TimedOut e u then if u.state = .listen then ({ u with state := .closing }, [])
        else writeRst e.rstOk u
      else (u, []) := rfl
  rw [heq s, heq t, h.state]
  by_cases hout : TimedOut e s
  · rw [if_pos hout, if_pos (hdue.mpr hout)]
    split
    · obtain ⟨time, window, hostname, rfl⟩ := h.adjusted
      exact ⟨⟨⟨time, window, hostname, rfl⟩, h.window.imp_right fun hdead => ⟨hdead.1, by simp⟩,
        fun hclose => by cases hclose⟩, rfl⟩
    · exact writeRst_same e.rstOk h
  · rw [if_neg hout, if_neg (hdue.not.mpr hout)]
    exact ⟨h, rfl⟩

theorem closeSession_same (e : CheckEnv) (h : Alike s t) :
    Same (closeSession e s) (closeSession e t) := by
  obtain ⟨time, window, hostname, rfl⟩ := h.adjusted
  by_cases hst : s.state = .closing
  · have hst' : (s.adjust time window hostname).state = .closing := hst
    rw [closeSession, if_pos hst, closeSession, if_pos hst']
    exact ⟨⟨⟨e.now2, window, hostname, rfl⟩, h.window.imp_right fun hdead => ⟨hdead.1, by simp⟩,
      fun _ => rfl⟩, rfl⟩
  · have hst' : ¬ (s.adjust time window hostname).state = .closing := hst
    rw [closeSession, if_neg hst, closeSession, if_neg hst']
    exact ⟨h, rfl⟩

theorem Alike.clear (h : Alike s t) :
    Alike (if s.state.closed then { s with sent := 0, received := 0 } else s)
      (if t.state.closed then { t with sent := 0, received := 0 } else t) := by
  rw [h.state]
  split
  · obtain ⟨time, window, hostname, rfl⟩ := h.adjusted
    exact ⟨⟨time, window, hostname, rfl⟩, h.window, h.time⟩
  · exact h

theorem checkTcpSession_same (e : CheckEnv) (h : Alike s t) (hdue : TimedOut e t ↔ TimedOut e s) :
    Same (checkTcpSession e s) (checkTcpSession e t) := by
  have hexpire := expireSession_same e h hdue
  have hclose := closeSession_same e hexpire.alike
  have hclear := hclose.alike.clear
  unfold checkTcpSession
  simp only [hexpire.outs, hclose.outs]
  refine ⟨hclear, ?_⟩
  generalize (if (closeSession e (expireSession e s).1).1.state.closed then _ else _) = u at *
  generalize (if (closeSession e (expireSession e t).1).1.state.closed then _ else _) = v at *
  rw [hclear.state]
  by_cases hst : u.state = .close
  · simp only [hst, hclear.time hst]
  · simp only [hst, false_and]

end alike

/-! ## The repeated SYN -/

/-- The SYN of a session, without data, once more. -/
structure Resyn (s : Session) (p : Packet) : Prop where
  syn : p.syn = true
  alone : p.urg = false ∧ p.ack = false ∧ p.rst = false
  bare : p.datalen = 0
  seq : p.seq = s.remoteStart

instance (s : Session) (p : Packet) : Decidable (Resyn s p) :=
  decidable_of_iff (p.syn = true ∧ (p.urg = false ∧ p.ack = false ∧ p.rst = false) ∧ p.datalen = 0 ∧
    p.seq = s.remoteStart)
    ⟨fun h => ⟨h.1, h.2.1, h.2.2.1, h.2.2.2⟩, fun h => ⟨h.syn, h.alone, h.bare, h.seq⟩⟩

/-- The packet has no effect on the session or on the outside. -/
structure Unmoved (s : Session) (r : Session × List Out) : Prop where
  state : r.1.state = s.state
  remoteSeq : r.1.remoteSeq = s.remoteSeq
  localSeq : r.1.localSeq = s.localSeq
  connectSent : r.1.connectSent = s.connectSent
  forward : r.1.forward = s.forward
  outs : r.2 = []

/-- The walk of `queue_tcp` ends at a segment with the number of the packet. -/
def walkEndsAt (p : Packet) (q : List Segment) : Prop :=
  (q.find? fun g => ¬ compareU32 g.seq p.seq < 0).map Segment.seq = some p.seq

instance (p : Packet) (q : List Segment) : Decidable (walkEndsAt p q) :=
  inferInstanceAs (Decidable (_ = _))

/-- The packet gets past the branches for relayed ports, which hold it back or open the tunnel for
it. -/
def Passes (s : Session) (p : Packet) : Prop :=
  ¬ proxied s.dest ∨ s.connectSent = .established ∨
    s.connectSent = .sent ∧ (compareU32 p.seq s.remoteSeq < 0 ∨ walkEndsAt p s.forward)

instance (s : Session) (p : Packet) : Decidable (Passes s p) := inferInstanceAs (Decidable (_ ∨ _))

/-- Without data nothing replaces anything, so the queue stays if there is nothing to insert. -/
theorem insertSegment_empty (p : Packet) (h : p.datalen = 0) (q : List Segment) :
    insertSegment p q = q ↔ walkEndsAt p q := by
  induction q with
  | nil => simp [insertSegment, walkEndsAt]
  | cons g q ih =>
    unfold insertSegment
    split
    · rename_i hlt
      have hskip : walkEndsAt p (g :: q) ↔ walkEndsAt p q := by simp [walkEndsAt, hlt]
      rw [List.cons_inj_right, ih, hskip]
    · rename_i hge
      have hle : 0 ≤ compareU32 g.seq p.seq := Int.not_lt.mp hge
      have hstop : walkEndsAt p (g :: q) ↔ g.seq = p.seq := by simp [walkEndsAt, hle]
      rw [hstop]
      split
      · rename_i hgt
        have hne : g.seq ≠ p.seq := (compareU32_pos.mp hgt).1
        refine iff_of_false (fun heq => ?_) hne
        have hlen := congrArg List.length heq
        simp at hlen
      · rename_i hngt
        have hseq : g.seq = p.seq := eq_of_compareU32 hge hngt
        split
        · rename_i hlt
          exact absurd hlt (by show ¬ g.len < p.datalen; omega)
        · exact iff_of_true rfl hseq

theorem handleSession_resyn (e : PacketEnv) {p : Packet} {s : Session} (hst : s.state.starting)
    (hp : Resyn s p) :
    handleSession e p s =
      (s.adjust e.now (p.window.setWidth 32 <<< s.sendScale) s.hostname, []) := by
  have hopen : ¬ s.state.closed := fun hclosed => not_starting_of_closed hclosed hst
  obtain ⟨-, hack, hrst⟩ := hp.alone
  simp [handleSession, hopen, hp.bare, handleFlags, hrst, hack, hp.syn, Session.adjust]

theorem queueTcp_empty {p : Packet} {s : Session} (hp : p.datalen = 0) :
    queueTcp p s = s ↔ compareU32 p.seq s.remoteSeq < 0 ∨ walkEndsAt p s.forward := by
  unfold queueTcp
  split
  · rename_i hlt
    exact iff_of_true rfl (.inl hlt)
  · rename_i hge
    rw [or_iff_right hge, ← insertSegment_empty p hp s.forward]
    exact ⟨congrArg Session.forward, fun h => by rw [h]⟩

/-- Past the branches for relayed ports, a repeated SYN changes nothing but a time, a window and a
name. -/
theorem resyn_passes (abi : Abi) (e : PacketEnv) {p : Packet} {s : Session} (hst : s.state.starting)
    (hp : Resyn s p) (hpass : Passes s p) :
    ∃ time window hostname, handleTcp abi e p s = (s.adjust time window hostname, []) ∧
      (¬ proxied s.dest ∨ s.connectSent = .established ∨ window = s.sendWindow) := by
  have hurg := hp.alone.1
  by_cases hport : proxied s.dest
  · rcases hpass with hplain | hsent | ⟨hsent, hqueue⟩
    · exact absurd hport hplain
    · have hsession :=
        handleSession_resyn e (s := { s with hostname := packetHostname abi p s }) hst
        ⟨hp.syn, hp.alone, hp.bare, hp.seq⟩
      rw [handleTcp_tunnel abi e hurg hport hsent, hsession]
      exact ⟨e.now, p.window.setWidth 32 <<< s.sendScale, packetHostname abi p s, rfl,
        .inr (.inl hsent)⟩
    · have hstay : queueTcp p { s with hostname := packetHostname abi p s } =
          { s with hostname := packetHostname abi p s } :=
        (queueTcp_empty hp.bare).mpr hqueue
      rw [handleTcp_waiting abi e hurg hport (by simp [hsent]),
        connectPhase_past abi e p s (by simp [hsent]), hstay]
      exact ⟨s.time, s.sendWindow, packetHostname abi p s, rfl, .inr (.inr rfl)⟩
  · rw [handleTcp_plain_port abi e hurg hport, handleSession_resyn e hst hp]
    exact ⟨e.now, p.window.setWidth 32 <<< s.sendScale, s.hostname, rfl, .inl hport⟩

/-- A repeated SYN has no effect exactly when the branches for relayed ports let it pass. -/
theorem resyn_unmoved_iff (abi : Abi) (e : PacketEnv) {p : Packet} {s : Session}
    (hst : s.state.starting) (hp : Resyn s p) :
    Unmoved s (handleTcp abi e p s) ↔ Passes s p := by
  constructor
  · intro h
    by_cases hport : proxied s.dest
    · have hurg := hp.alone.1
      cases hsent : s.connectSent with
      | established => exact .inr (.inl hsent)
      | sent =>
        have hforward := h.forward
        rw [handleTcp_waiting abi e hurg hport (by simp [hsent]),
          connectPhase_past abi e p s (by simp [hsent])] at hforward
        have hstay : queueTcp p { s with hostname := packetHostname abi p s } =
            { s with hostname := packetHostname abi p s } := by
          rw [queueTcp_eq]
          exact congrArg (fun q => { s with hostname := packetHostname abi p s, forward := q })
            hforward
        have hqueue :=
          (queueTcp_empty (s := { s with hostname := packetHostname abi p s }) hp.bare).mp hstay
        exact .inr (.inr ⟨hsent, hqueue⟩)
      | notSent =>
        have houts := h.outs
        rw [handleTcp_waiting abi e hurg hport (by simp [hsent])] at houts
        cases hsend :
          sockSend s.socket e.send (connectRequest (packetHostname abi p s) s.dest).length with
        | fail err => simp [connectPhase_refused abi e p s hsent hsend] at houts
        | ok n => simp [connectPhase_request abi e p s hsent hsend] at houts
    · exact .inl hport
  · intro hpass
    obtain ⟨time, window, hostname, heq, -⟩ := resyn_passes abi e hst hp hpass
    rw [heq]
    exact ⟨rfl, rfl, rfl, rfl, rfl, rfl⟩

/-! ## A run and its retransmissions -/

/-- What holds of every session on the way: only a proxied one sends a CONNECT request, and one with
a tunnel is past the handshake. -/
structure Staged (s : Session) : Prop where
  plain : ¬ proxied s.dest → s.connectSent = .notSent
  tunnel : s.connectSent = .established → ¬ s.state.starting

theorem Staged.dry {s t : Session} {outs : List Out} (h : Staged s)
    (hdry : Dry s t outs) : Staged t := by
  constructor
  · rw [hdry.dest, hdry.connectSent]
    exact h.plain
  · rw [hdry.connectSent]
    exact fun hsent hst => h.tunnel hsent (hdry.starting hst)

theorem Staged.queue {s : Session} (h : Staged s) (p : Packet) : Staged (queueTcp p s) := by
  constructor
  · simpa using h.plain
  · simpa using h.tunnel

theorem handleTcp_staged (abi : Abi) (e : PacketEnv) (p : Packet) (s : Session) (h : Staged s) :
    Staged (handleTcp abi e p s).1 := by
  refine handleTcp_cases abi e p s ?_ ?_ ?_ ?_ ?_
  · exact fun _ => h
  · rintro t host rfl _ _ _
    exact Staged.queue (s := { s with hostname := host }) ⟨h.plain, h.tunnel⟩ p
  · rintro t rfl _ _ _
    have hnamed : Staged { s with hostname := packetHostname abi p s } := ⟨h.plain, h.tunnel⟩
    exact (hnamed.dry (writeRst_dry e.tun.rst _)).queue p
  · rintro t n rfl _ hport _ _
    exact Staged.queue
      (s := { s with hostname := packetHostname abi p s, connectSent := .sent, state := .listen })
      ⟨fun hplain => absurd hport hplain, by simp⟩ p
  · rintro t host rfl _ _
    exact Staged.dry (s := { s with hostname := host }) ⟨h.plain, h.tunnel⟩
      (handleSession_dry e p _)

theorem readSocket_staged (e : SocketEnv) (s : Session) (h : Staged s) :
    Staged (readSocket e s).1 := by
  have hclosed {t : Session} (hdest : t.dest = s.dest) (hsent : t.connectSent = s.connectSent)
      (hst : t.state.closed) : Staged t :=
    by
    have hdry : Dry s t [] := .of_closed hdest hsent (by simp) hst
    exact h.dry hdry
  refine readSocket_cases e s h ?_ ?_ ?_ ?_ ?_
  · exact fun _ _ => ⟨h.plain, h.tunnel⟩
  · exact fun _ _ => hclosed rfl rfl closed_closing
  · exact fun _ hst =>
      Staged.dry (s := { s with time := e.now }) ⟨h.plain, h.tunnel⟩ (handleEof_dry e _ hst)
  · rintro _ _ t _ _ _ rfl _
    exact ⟨h.plain, h.tunnel⟩
  · rintro _ _ t _ _ rfl _
    exact hclosed rfl rfl closed_closing

theorem step_staged (abi : Abi) (s : Session) (i : Input) (h : Staged s) :
    Staged (step abi s i).1 := by
  cases i with
  | packet e p => exact handleTcp_staged abi e p s h
  | socket e =>
    show Staged (checkTcpSocket abi e s).1
    refine checkTcpSocket_cases abi e s ?_ ?_ ?_ ?_
    · exact fun _ =>
        Staged.dry (s := { s with time := e.now }) ⟨h.plain, h.tunnel⟩ (writeRst_dry e.tun.rst _)
    · intro _ hst _
      refine readReply_cases e s hst ?_ ?_ ?_
      · exact fun _ _ => h.dry (writeRst_dry e.tun.rst s)
      · exact fun _ _ _ => h.dry (writeRst_dry e.tun.rst s)
      · exact fun _ _ hsent =>
          ⟨fun hplain => by simp [h.plain hplain] at hsent, fun _ => by simp [State.starting]⟩
    · exact fun _ hst _ => h.dry (handshake_dry e s hst)
    · exact fun _ _ =>
        readSocket_staged e _ ((h.dry (forwardData_dry abi e s)).dry (ackForwarded_dry e _ _))
  | monitor e =>
    show Staged (if 0 ≤ s.socket then ((monitorTcpSession e s).1, (monitorTcpSession e s).2.2)
      else (s, [])).1
    split
    · exact h.dry (monitor_dry e s)
    · exact h
  | check e => exact h.dry (check_dry e s)

/-- What the rest of the program sees of a step: the answer of the periodic functions, and the
outputs. -/
def observed (abi : Abi) (s : Session) : Input → Bool × List Out
  | .packet e p => (false, (handleTcp abi e p s).2)
  | .socket e => (false, (checkTcpSocket abi e s).2)
  | .monitor e => if 0 ≤ s.socket then (monitorTcpSession e s).2 else (false, [])
  | .check e => (checkTcpSession e s).2

/-- The steps of the program, and the arrival of a SYN that only one of two runs has. -/
inductive Event where
  | repeated (e : PacketEnv) (p : Packet)
  | both (i : Input)

/-- Two sessions side by side. -/
def twin (abi : Abi) : Machine (Session × Session) Event Out
  | st, .repeated e p => (((handleTcp abi e p st.1).1, st.2), [])
  | st, .both i => (((step abi st.1 i).1, (step abi st.2 i).1), [])

/-- A repeated SYN has no effect, and the program sees no difference otherwise. -/
def Invisible (abi : Abi) (st : Session × Session) : Event → Prop
  | .repeated e p => Unmoved st.1 (handleTcp abi e p st.1)
  | .both i => observed abi st.1 i = observed abi st.2 i

/-- What arrives again is the SYN, before the session is established, and it passes; and no timeout
runs out between the two runs, since every packet that passes restarts it. -/
def Passing (st : Session × Session) : Event → Prop
  | .repeated _ p => st.1.state.starting ∧ Resyn st.1 p ∧ Passes st.1 p
  | .both (.check e) => TimedOut e st.2 ↔ TimedOut e st.1
  | .both _ => True

instance (st : State) : Decidable st.starting := inferInstanceAs (Decidable (_ ∨ _))

instance (st : Session × Session) : (ev : Event) → Decidable (Passing st ev)
  | .repeated _ p =>
    inferInstanceAs (Decidable (st.1.state.starting ∧ Resyn st.1 p ∧ Passes st.1 p))
  | .both (.check e) => inferInstanceAs (Decidable (TimedOut e st.2 ↔ TimedOut e st.1))
  | .both (.packet _ _) | .both (.socket _) | .both (.monitor _) => isTrue trivial

theorem step_same (abi : Abi) (i : Input) {s t : Session} (hs : Staged s) (h : Alike s t)
    (hpass : Passing (s, t) (.both i)) :
    observed abi s i = observed abi t i ∧ Alike (step abi s i).1 (step abi t i).1 := by
  cases i with
  | packet e p =>
    have hsame := handleTcp_same abi e p h
    exact ⟨congrArg (Prod.mk false) hsame.outs.symm, hsame.alike⟩
  | socket e =>
    have hsame := checkTcpSocket_same abi e (fun hplain => by simp [hs.plain hplain]) h
    exact ⟨congrArg (Prod.mk false) hsame.outs.symm, hsame.alike⟩
  | monitor e =>
    have hsame := monitorTcpSession_same e h
    simp only [observed, step, h.socket]
    split
    · exact ⟨hsame.outs.symm, hsame.alike⟩
    · exact ⟨rfl, h⟩
  | check e =>
    have hsame := checkTcpSession_same e h hpass
    exact ⟨hsame.outs.symm, hsame.alike⟩

/-- A repeated SYN that passes leaves the two sessions alike. -/
theorem resyn_alike (abi : Abi) (e : PacketEnv) {p : Packet} {s t : Session} (hs : Staged s)
    (h : Alike s t) (hst : s.state.starting) (hp : Resyn s p) (hpass : Passes s p) :
    Alike (handleTcp abi e p s).1 t := by
  obtain ⟨time, window, hostname, heq, hwindow⟩ := resyn_passes abi e hst hp hpass
  rw [heq]
  have hreading : ¬ (s.state = .established ∨ s.state = .closeWait) := by
    rcases hst with hst | hst <;> simp [hst]
  obtain ⟨time', window', hostname', rfl⟩ := h.adjusted
  refine ⟨⟨time', window', hostname', rfl⟩, ?_, fun hclose => ?_⟩
  · by_cases hport : proxied s.dest
    · have hkept : window = s.sendWindow :=
        (hwindow.resolve_left (not_not_intro hport)).resolve_left fun hsent => hs.tunnel hsent hst
      exact .inl ((h.window.resolve_right fun hdead => hdead.1 hport).trans hkept.symm)
    · exact .inr ⟨hport, hreading⟩
  · have hclose : s.state = .close := hclose
    rcases hst with hst | hst <;> simp [hst] at hclose

theorem twin_step (abi : Abi) (st : Session × Session) (ev : Event)
    (hs : Staged st.1 ∧ Alike st.1 st.2) (hpass : Passing st ev) :
    Invisible abi st ev ∧ Staged (twin abi st ev).1.1 ∧
    Alike (twin abi st ev).1.1 (twin abi st ev).1.2 := by
  cases ev with
  | repeated e p =>
    obtain ⟨hst, hp, hpass⟩ := hpass
    exact ⟨(resyn_unmoved_iff abi e hst hp).mpr hpass, handleTcp_staged abi e p st.1 hs.1,
      resyn_alike abi e hs.1 hs.2 hst hp hpass⟩
  | both i =>
    obtain ⟨hobserved, halike⟩ := step_same abi i hs.1 hs.2 hpass
    exact ⟨hobserved, step_staged abi st.1 i hs.1, halike⟩

/-- A repeated SYN has no effect exactly if it passes; and a run with repeated SYNs that pass cannot
be told from the run without them. -/
theorem repeated_syn_invisible (abi : Abi) (e : SynEnv) (p : Packet) (evs : List Event) :
    (∀ s e p, s.state.starting → Resyn s p → (Unmoved s (handleTcp abi e p s) ↔ Passes s p)) ∧
      (Along (twin abi) Passing (newSession e p, newSession e p) evs →
        Along (twin abi) (Invisible abi) (newSession e p, newSession e p) evs) := by
  refine ⟨fun s e p hst hp => resyn_unmoved_iff abi e hst hp, fun hpass => ?_⟩
  apply along_of_invariant (twin abi) Passing (Invisible abi)
    (fun st => Staged st.1 ∧ Alike st.1 st.2)
  · exact fun st ev hs hpass => twin_step abi st ev hs hpass
  · exact ⟨⟨fun _ => rfl, fun h => by simp at h⟩, Alike.refl _⟩
  · exact hpass

/-- A connection to port 22 whose SYN comes three times, before and behind its SYN-ACK. -/
theorem repeated_syn_invisible_plain :
    Along (twin .arm64V8a) (Invisible .arm64V8a)
    (newSession (plainSyn 22) (synPacket []), newSession (plainSyn 22) (synPacket []))
      [.repeated plainEnv (synPacket []), .repeated plainEnv (synPacket []),
        .both (.socket writable), .repeated plainEnv (synPacket []),
        .both (.packet plainEnv (plainPacket 1001 5001 []))] :=
  (repeated_syn_invisible .arm64V8a (plainSyn 22) (synPacket []) _).2 (by decide +kernel)

/-- To port 443 the repeated SYN sends the CONNECT request, and is queued before the data of the
client; if the socket does not take the request, the session is reset. -/
theorem repeated_syn_visible :
    let s := newSession (plainSyn 443) (synPacket [])
    let r := handleTcp .arm64V8a plainEnv (synPacket []) s
    let r' := handleTcp .arm64V8a { plainEnv with send := .fail .eagain } (synPacket []) s
    Resyn s (synPacket []) ∧ r.1.connectSent = .sent ∧ r.1.forward.map Segment.seq = [1000] ∧
      r'.1.state = .closing ∧
      ¬ Unmoved s r ∧ ¬ Unmoved s r' := by
  refine ⟨by decide +kernel, by decide +kernel, by decide +kernel, by decide +kernel,
    fun h => ?_, fun h => ?_⟩
  · exact absurd h.connectSent (by decide +kernel)
  · exact absurd h.state (by decide +kernel)

end PdaNetClient.Tcp
