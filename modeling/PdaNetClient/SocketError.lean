import PdaNetClient.Descriptors
import PdaNetClient.PollTimeout
import PdaNetClient.TcpClosed

/-!
# Errors of a socket

An event with EPOLLERR is to end the session of its socket: the handler marks the
session, and the next check closes the descriptor, which takes the error with it. The
handlers of ICMP and TCP do so; the one of UDP is not called for such an event.
-/
namespace PdaNetClient.Tcp

set_option autoImplicit false

section

variable (abi : Abi) (e : SocketEnv) (bytes : RecvResult) (drain : List Bytes)

theorem forwardLoop_recv (q : List Segment) (i : Nat) (b : U32) (s : Session) (fwd : Bool) :
    forwardLoop abi { e with recv := bytes, drain := drain } q i b s fwd =
      forwardLoop abi e q i b s fwd := by
  induction q generalizing i b s fwd with
  | nil => rfl
  | cons g q ih => simp only [forwardLoop, ih]

/-- A closed session is written to, but not read. -/
theorem checkTcpSocket_recv {s : Session} (hc : s.state.closed) :
    checkTcpSocket abi { e with recv := bytes, drain := drain } s = checkTcpSocket abi e s := by
  have hlisten : s.state ≠ .listen := fun hst => by simp [hst] at hc
  have hforward : forwardData abi { e with recv := bytes, drain := drain } s =
      forwardData abi e s := by
    simp only [forwardData, forwardLoop_recv]
  have hclosed (f : SocketEnv) :
      (ackForwarded f (forwardData abi e s).2.1 (forwardData abi e s).1).1.state.closed := by
    apply ackForwarded_closed
    rwa [forwardData_state]
  have hrelay : relay abi { e with recv := bytes, drain := drain } s = relay abi e s := by
    simp only [relay, hforward, readSocket_closed _ _ (hclosed _)]
    rfl
  simp only [checkTcpSocket, hlisten, if_false, hrelay]

end

end PdaNetClient.Tcp

namespace PdaNetClient.Table

open Runs Sweep Datagram

set_option autoImplicit false

/-- The events that are reported for the socket of a session. -/
def Session.events (e : SocketEnv) (t : Tcp.SocketEnv) : Session → Tcp.Events
  | .icmp _ | .udp _ => e.ev
  | .tcp _ => t.ev

/-- Nothing is read from the socket: it does not matter what `recv` would return. -/
def ReadsNothing (abi : Abi) (e : SocketEnv) (t : Tcp.SocketEnv) (x : Entry) : Prop :=
  ∀ bytes bytes' drain,
    socketVisit abi { e with recv := bytes } { t with recv := bytes', drain := drain } x =
      socketVisit abi e t x

/-- Whatever the clock and the load, the next check closes the descriptor. -/
def ClosedByCheck (y : Entry) : Prop :=
  ∀ sessions maxsessions answers,
    (checkVisit sessions maxsessions answers y).2.filterMap Out.closes = [y.session.socket]

/-- The dispatch of one event ends the session `x`. -/
structure Ends (abi : Abi) (e : SocketEnv) (t : Tcp.SocketEnv) (x : Entry) : Prop where
  unread : ReadsNothing abi e t x
  ended : ∃ y, (socketVisit abi e t x).1 = some y ∧ y.session.ending = true ∧ ClosedByCheck y

/-- The session is an active one of UDP. -/
def Session.activeUdp : Session → Bool
  | .udp s => decide (s.state = .active)
  | _ => false

/-! ## The check -/

theorem deleteIf_closes (del : Bool) (r : Option Entry × List Out) :
    (deleteIf del r).2.filterMap Out.closes = r.2.filterMap Out.closes := by
  cases del with
  | false => rfl
  | true =>
    have hnone : ((r.1.map fun x => Out.freed x.session).toList).filterMap Out.closes = [] := by
      cases r.1 <;> rfl
    show (r.2 ++ (r.1.map fun x => Out.freed x.session).toList).filterMap Out.closes = _
    rw [List.filterMap_append, hnone, List.append_nil]

/-- A check closes what was told to end. -/
theorem closedByCheck_of_ending {x : Entry} (hopen : 0 ≤ x.session.socket)
    (hend : x.session.ending = true) :
    ClosedByCheck x := by
  intro sessions maxsessions answers
  obtain ⟨name, session⟩ := x
  cases session with
  | icmp s =>
    have hstop : s.stop = true := hend
    show (deleteIf _ (icmpVisit _ _)).2.filterMap Out.closes = [s.socket]
    rw [deleteIf_closes]
    simp [checkIcmpSession, hstop, icmpVisit, List.filterMap, Out.closes]
  | udp s =>
    have hstate : s.state = .finishing := by simpa [Session.ending] using hend
    show (deleteIf _ (udpVisit _ _)).2.filterMap Out.closes = [s.socket]
    rw [deleteIf_closes]
    simp [checkUdpSession, expireUdp, finishUdp, hstate, udpVisit, List.filterMap, Out.closes]
  | tcp s =>
    have hstate : s.state = .closing := by simpa [Session.ending] using hend
    have hsocket : 0 ≤ s.socket := hopen
    show (deleteIf _ (tcpVisit _ _)).2.filterMap Out.closes = [s.socket]
    rw [deleteIf_closes]
    simp [Tcp.checkTcpSession, Tcp.expireSession, Tcp.closeSession, hstate, hsocket, tcpVisit,
      List.filterMap, Out.closes]

/-! ## The dispatch -/

section

variable {abi : Abi} {e : SocketEnv} {t : Tcp.SocketEnv} {x : Entry}

/-- With EPOLLERR no handler reads, and without EPOLLIN those of ICMP and UDP do not. -/
theorem readsNothing_of_events
    (h : (x.session.events e t).err = true ∨ (x.session.events e t).inn = false ∧
      ∀ s, x.session ≠ .tcp s) :
    ReadsNothing abi e t x := by
  intro bytes bytes' drain
  obtain ⟨name, session⟩ := x
  cases session with
  | icmp s =>
    rcases h with herr | ⟨hinn, -⟩
    · have herr : e.ev.err = true := herr
      simp [socketVisit, checkIcmpSocket, herr]
    · have hinn : e.ev.inn = false := hinn
      simp [socketVisit, checkIcmpSocket, hinn]
  | udp s =>
    rcases h with herr | ⟨hinn, -⟩
    · have herr : e.ev.err = true := herr
      simp [socketVisit, herr]
    · have hinn : e.ev.inn = false := hinn
      simp [socketVisit, hinn]
  | tcp s =>
    have herr : t.ev.err = true := h.resolve_right fun hno => hno.2 s rfl
    simp [socketVisit, Tcp.step, Tcp.checkTcpSocket, herr]

theorem readsNothing_of_shut (h : x.session.socket < 0) : ReadsNothing abi e t x := by
  intro bytes bytes' drain
  simp [socketVisit, h]

theorem readsNothing_of_closing {s : Tcp.Session} (hs : x.session = .tcp s) (hc : s.state.closed) :
    ReadsNothing abi e t x := by
  intro bytes bytes' drain
  simp only [socketVisit, hs, Tcp.step, Tcp.checkTcpSocket_recv abi t bytes' drain hc]

/-- With EPOLLERR the dispatch ends every session but an active one of UDP. -/
theorem ends_iff (abi : Abi) (hsound : x.session.Sound) (hopen : 0 ≤ x.session.socket)
    (herr : (x.session.events e t).err = true) :
    Ends abi e t x ↔ x.session.activeUdp = false := by
  have hunread : ReadsNothing abi e t x := readsNothing_of_events (.inl herr)
  have hshut : ¬ x.session.socket < 0 := Int.not_lt.mpr hopen
  obtain ⟨name, session⟩ := x
  cases session with
  | icmp s =>
    have herr : e.ev.err = true := herr
    refine iff_of_true ⟨hunread, ⟨name, .icmp { s with time := e.now, stop := true }⟩, ?_,
      rfl, ?_⟩ rfl
    · simp only [socketVisit, hshut, if_false, checkIcmpSocket, herr, if_true, icmpVisit]
    · exact closedByCheck_of_ending hopen rfl
  | udp s =>
    have herr : e.ev.err = true := herr
    have hvisit : (socketVisit abi e t ⟨name, .udp s⟩).1 = some ⟨name, .udp s⟩ := by
      simp [socketVisit, hshut, herr]
    constructor
    · rintro ⟨-, y, hy, hend, -⟩
      obtain rfl : ⟨name, .udp s⟩ = y := Option.some.inj (hvisit.symm.trans hy)
      have hstate : s.state = .finishing := by simpa [Session.ending] using hend
      simp [Session.activeUdp, hstate]
    · intro hactive
      have hstate : s.state = .finishing := by
        have hst : s.state = .active ∨ s.state = .finishing := hsound.disciplined.mp hopen
        exact hst.resolve_left (by simpa [Session.activeUdp] using hactive)
      have hend : (Session.udp s).ending = true := by simp [Session.ending, hstate]
      exact ⟨hunread, _, hvisit, hend, closedByCheck_of_ending hopen hend⟩
  | tcp s =>
    have herr : t.ev.err = true := herr
    have hsocket : 0 ≤ s.socket := hopen
    have hne : s.state ≠ .close := by
      intro hst
      have hgone : s.socket = -1 := by simpa [Session.Sound, Tcp.Descriptor, hst] using hsound
      omega
    have hstep : Tcp.step abi s (.socket t) = Tcp.writeRst t.tun.rst { s with time := t.now } := by
      simp only [Tcp.step, Tcp.checkTcpSocket, herr, if_true]
    have hstate : (Tcp.step abi s (.socket t)).1.state = .closing := by
      rw [hstep]
      simp [Tcp.writeRst, hne]
    have hsame : (Tcp.step abi s (.socket t)).1.socket = s.socket := by
      rw [hstep]
      exact (Tcp.writeRst_leaves (s := { s with time := t.now }) t.tun.rst hsound).socket
    refine iff_of_true ⟨hunread, ⟨name, .tcp (Tcp.step abi s (.socket t)).1⟩, ?_, ?_, ?_⟩ rfl
    · simp only [socketVisit, hshut, if_false, tcpVisit]
    · simp [Session.ending, hstate]
    · exact closedByCheck_of_ending (by simpa [Session.socket, hsame] using hsocket)
        (by simp [Session.ending, hstate])

end

/-! ## The run behind an error -/

/-- The event makes a handler that does not look at the state read an ending session. -/
def ReadsEnding (e : SocketEnv) : Session → Prop
  | .icmp s => s.stop = true ∧ e.ev.err = false ∧ e.ev.inn = true
  | .udp s => s.state = .finishing ∧ e.ev.err = false ∧ e.ev.inn = true
  | .tcp _ => False

/-- The packet takes the closed session back to LISTEN. -/
def Revived (e : PacketEnv) : Packet → Session → Prop
  | .tcp p, .tcp s => Tcp.Revives e.tcp p.segment s
  | _, _ => False

/-- The session `n`, once it is ending, is left to the check. -/
def LeavesEnding (n : Nat) (l : Loop) : Input → Prop
  | .socket name e _ => name = n → ∀ x ∈ l.table, x.name = n → ¬ ReadsEnding e x.session
  | .packet e p => ∀ x ∈ l.table, x.name = n → finds p l.table = some x → ¬ Revived e p x.session
  | _ => True

/-- No event on the socket of the session `n` reads. -/
def Unread (abi : Abi) (n : Nat) (l : Loop) : Input → Prop
  | .socket name e t => name = n → ∀ x ∈ l.table, x.name = n → ReadsNothing abi e t x
  | _ => True

/-- The session `n` is not active, if it is there at all. -/
structure Idle (n : Nat) (l : Loop) : Prop where
  taken : n < l.next
  inactive : ∀ x ∈ l.table, x.name = n → x.session.active = false

section

variable {l : Loop} {n : Nat}

theorem active_of_ending {s : Session} (h : s.ending = true) : s.active = false := by
  cases hactive : s.active with
  | false => rfl
  | true => exact absurd h (by simp [ending_of_active hactive])

theorem closed_of_inactive {s : Tcp.Session}
    (h : (Session.tcp s).active = false) : s.state.closed := by
  by_contra hopen
  simp [(active_tcp_iff s).mpr hopen] at h

/-- A session that is not active is ending, or its descriptor is closed. -/
theorem ending_or_shut {s : Session} (hsound : s.Sound) (h : s.active = false) :
    s.ending = true ∨ s.socket < 0 := by
  cases s with
  | icmp s =>
    have hstop : s.stop = true := by simpa [Session.active] using h
    exact .inl hstop
  | udp s =>
    cases hst : s.state with
    | active => simp [Session.active, hst] at h
    | finishing => exact .inl (by simp [Session.ending, hst])
    | closed | blocked =>
      have hgone : s.socket = -1 := by simpa [Session.Sound, hst] using hsound
      exact .inr (show s.socket < 0 by omega)
  | tcp s =>
    rcases closed_of_inactive h with hst | hst
    · exact .inl (by simp [Session.ending, hst])
    · have hgone : s.socket = -1 := by simpa [Session.Sound, Tcp.Descriptor, hst] using hsound
      exact .inr (show s.socket < 0 by omega)

/-- An event that is not to read an ending session does not. -/
theorem readsNothing_of_ending {abi : Abi} {e : SocketEnv} {t : Tcp.SocketEnv} {x : Entry}
    (hend : x.session.ending = true) (hno : ¬ ReadsEnding e x.session) :
    ReadsNothing abi e t x := by
  obtain ⟨name, session⟩ := x
  cases session with
  | icmp s =>
    have hstop : s.stop = true := hend
    cases herr : e.ev.err with
    | true => exact readsNothing_of_events (.inl herr)
    | false =>
      have hinn : e.ev.inn = false := by simpa [ReadsEnding, hstop, herr] using hno
      exact readsNothing_of_events (.inr ⟨hinn, by simp⟩)
  | udp s =>
    have hstate : s.state = .finishing := by simpa [Session.ending] using hend
    cases herr : e.ev.err with
    | true => exact readsNothing_of_events (.inl herr)
    | false =>
      have hinn : e.ev.inn = false := by simpa [ReadsEnding, hstate, herr] using hno
      exact readsNothing_of_events (.inr ⟨hinn, by simp⟩)
  | tcp s => exact readsNothing_of_closing rfl (closed_of_inactive (active_of_ending hend))

theorem not_readsEnding_of_err {e : SocketEnv} (herr : e.ev.err = true)
    (s : Session) : ¬ ReadsEnding e s := by
  cases s <;> simp [ReadsEnding, herr]

theorem Idle.unread (h : Idle n l) (hheld : Held l) (abi : Abi) (i : Input)
    (hleaves : LeavesEnding n l i) :
    Unread abi n l i := by
  cases i with
  | socket name e t =>
    intro hname x hx hn
    rcases ending_or_shut (hheld.sound x hx) (h.inactive x hx hn) with hend | hshut
    · exact readsNothing_of_ending hend (hleaves hname x hx hn)
    · exact readsNothing_of_shut hshut
  | _ => trivial

/-- A pass that activates no session. -/
theorem Idle.pass (h : Idle n l) {f : Visit Entry Out} (hname : ∀ x ∈ l.table, KeepsName x (f x))
    (hkeeps : ∀ x ∈ l.table, x.name = n → KeepsInactive x (f x)) : Idle n (l.pass f).1 := by
  refine ⟨h.taken, fun y hy hn => ?_⟩
  obtain ⟨x, hx, hxy⟩ := mem_sweep.mp hy
  have hxn : x.name = n := (hname x hx y hxy).symm.trans hn
  refine Bool.eq_false_iff.mpr fun hactive => ?_
  have hwas := hkeeps x hx hxn y hxy hactive
  simp [h.inactive x hx hxn] at hwas

theorem Idle.create (h : Idle n l) (r : OpenResult) (s : Nat → Session × List Out) :
    Idle n (l.create r s).1 := by
  cases r with
  | failed => exact h
  | leaked fd => exact ⟨h.taken, h.inactive⟩
  | ok fd =>
    refine ⟨Nat.lt_succ_of_lt h.taken, List.forall_mem_cons.mpr ⟨fun hn => ?_, h.inactive⟩⟩
    exact absurd hn (Nat.ne_of_gt h.taken)

theorem Idle.handleIp (h : Idle n l) (hnamed : Named l) (c : Config) (e : PacketEnv) (p : Packet)
    (hleaves : LeavesEnding n l (.packet e p)) : Idle n (handleIp c e p l).1 := by
  refine handleIp_cases c e p l ?_ ?_ ?_ ?_
  · exact fun _ => h
  · exact fun _ _ _ _ => h
  · intro x _ hfind
    refine h.pass (fun y _ => (packetVisit_name c.abi e p y).only) fun y hy hn =>
      KeepsInactive.only fun hname => ?_
    refine packetVisit_inactive c.abi e p y fun q s hp hs => ?_
    subst hp
    have hyx : x = y := hnamed.eq hy (List.mem_of_find?_eq_some hfind) hname.symm
    have hno := hleaves y hy hn (hyx ▸ hfind)
    rwa [hs] at hno
  · exact fun _ _ _ => h.create _ _

theorem Idle.step (h : Idle n l) (hnamed : Named l) (c : Config) (i : Input)
    (hleaves : LeavesEnding n l i) :
    Idle n (step c l i).1 := by
  cases i with
  | monitor e =>
    have hcount : Idle n { l with sessions := count l.table } := ⟨h.taken, h.inactive⟩
    exact hcount.pass (fun x _ => monitorVisit_name c.abi e x) fun x _ _ =>
      monitorVisit_inactive c.abi e x
  | check e => exact h.pass (fun x _ => checkVisit_name _ _ e x) fun x _ _ =>
      checkVisit_inactive _ _ e x
  | packet e p => exact h.handleIp hnamed c e p hleaves
  | socket name e t =>
    exact h.pass (fun x _ => (socketVisit_name c.abi e t x).only) fun x _ _ =>
      KeepsInactive.only fun _ => socketVisit_inactive c.abi e t x
  | allowed e =>
    exact h.pass (fun x _ => allowedVisit_name e x) fun x _ _ => allowedVisit_inactive e x
  | clear => exact h.pass (fun x _ => keepsName_gone _) fun x _ _ => keepsInactive_gone _

/-- What an error on the socket of the session `x` is to bring about, in the run behind it too. -/
structure EndsSession (c : Config) (e : SocketEnv) (t : Tcp.SocketEnv) (x : Entry) (l : Loop)
    (after : List Input) : Prop where
  ends : Ends c.abi e t x
  left : ∃ y ∈ (step c l (.socket x.name e t)).1.table, y.name = x.name ∧ y.session.ending = true
  silent : Along (step c) (Unread c.abi x.name) (step c l (.socket x.name e t)).1 after

theorem held_empty : Held empty := ⟨by simp [empty], by simp [empty], by simp [empty], empty_named⟩

theorem run_held (c : Config) (is : List Input) (h : Along (step c) Fresh empty is) :
    Held (run (step c) empty is).1 :=
  run_invariant (step c) Fresh (fun l _ => Held l) (fun _ _ i hl hi => (step_kept c hl i hi).held)
    is empty held_empty h

/-- In every run whose `socket()` calls return descriptors that are not open, and whose
continuation leaves the ending session to the check, an event with EPOLLERR ends its
session exactly if that is not an active session of UDP. -/
theorem error_ends_session_iff (c : Config) (before after : List Input) (x : Entry) (e : SocketEnv)
    (t : Tcp.SocketEnv)
    (hfresh : Along (step c) Fresh empty (before ++ .socket x.name e t :: after))
    (hx : x ∈ (run (step c) empty before).1.table) (hopen : 0 ≤ x.session.socket)
    (herr : (x.session.events e t).err = true)
    (hleaves : Along (step c) (LeavesEnding x.name)
      (step c (run (step c) empty before).1 (.socket x.name e t)).1 after) :
    EndsSession c e t x (run (step c) empty before).1 after ↔ x.session.activeUdp = false := by
  obtain ⟨hbefore, hevent, hafter⟩ := (along_append _ _ _ _ _).mp hfresh
  have hheld := run_held c before hbefore
  generalize hl : (run (step c) empty before).1 = l at hx hleaves hheld hevent hafter ⊢
  have hiff := ends_iff c.abi (hheld.sound x hx) hopen herr
  refine ⟨fun h => hiff.mp h.ends, fun hudp => ?_⟩
  have hends := hiff.mpr hudp
  obtain ⟨y, hy, hend, hcheck⟩ := hends.ended
  have hname : y.name = x.name := socketVisit_name c.abi e t x y hy
  have hkept := step_kept c hheld (.socket x.name e t) hevent
  have hmem : y ∈ (step c l (.socket x.name e t)).1.table :=
    mem_sweep.mpr ⟨x, hx, by simp [only, hy]⟩
  have hidle : Idle x.name (step c l (.socket x.name e t)).1 := by
    refine ⟨hheld.named.next x hx, fun z hz hzn => ?_⟩
    rw [hkept.held.named.eq hmem hz (hzn.trans hname.symm)]
    exact active_of_ending hend
  refine ⟨hends, ⟨y, hmem, hname, hend⟩, ?_⟩
  refine along_of_invariant (step c) (fun l i => Fresh l i ∧ LeavesEnding x.name l i)
    (Unread c.abi x.name)
    (fun l => Held l ∧ Idle x.name l) ?_ after _ ⟨hkept.held, hidle⟩
      ((along_and _ _ _ _ _).mpr ⟨hafter, hleaves⟩)
  rintro l i ⟨hheld, hidle⟩ ⟨hfresh, hleaves⟩
  exact ⟨hidle.unread hheld c.abi i hleaves, (step_kept c hheld i hfresh).held,
    hidle.step hheld.named c i hleaves⟩

/-- EPOLLIN and EPOLLERR. -/
def errorEvent (now : Int) : SocketEnv := ⟨⟨true, false, true⟩, now, .fail .other, true⟩

def echoRun : List Input := [.packet (plainEnv 5) (icmpPacket (server 1))]

def echoEntry : Entry := ⟨0, .icmp ⟨0, 4, client, server 1, 1, false, 5⟩⟩

/-- An error of an ICMP socket, reported twice, and the check that closes it. -/
theorem error_ends_session_icmp :
    EndsSession (plainConfig 10 true) (errorEvent 1) Tcp.writable echoEntry
      (run (step (plainConfig 10 true)) empty echoRun).1
      [.socket 0 (errorEvent 2) Tcp.writable, .check fun _ => answerAt 3] := by
  refine (error_ends_session_iff _ echoRun _ echoEntry _ _ (by decide +kernel) (by decide +kernel)
    (by decide) rfl ?_).mpr rfl
  exact ⟨fun _ x _ _ => not_readsEnding_of_err rfl x.session, trivial, trivial⟩

def queryRun : List Input := [.packet (plainEnv 5) (udpPacket client 4000 (server 1) 1000 [1])]

def queryEntry : Entry :=
  ⟨0, .udp ⟨0, 4, udp4Maxmsg, 1, 0, client, 4000, server 1, 1000, .active, 5⟩⟩

/-- An error of a UDP socket leaves the session as it is. -/
theorem udp_error_ignored :
    queryEntry ∈ (run (step (plainConfig 10 true)) empty queryRun).1.table ∧
      step (plainConfig 10 true) (run (step (plainConfig 10 true)) empty queryRun).1
        (.socket 0 (errorEvent 1) Tcp.writable) =
          ((run (step (plainConfig 10 true)) empty queryRun).1, []) ∧
      ¬ EndsSession (plainConfig 10 true) (errorEvent 1) Tcp.writable queryEntry
        (run (step (plainConfig 10 true)) empty queryRun).1 [] := by
  have hsound : queryEntry.session.Sound := show (0 : Int) ≤ 5 by decide
  refine ⟨by decide +kernel, by decide +kernel, fun h => ?_⟩
  have hudp : queryEntry.session.activeUdp = false := (ends_iff _ hsound (by decide) rfl).mp h.ends
  simp [Session.activeUdp, queryEntry] at hudp

end

end PdaNetClient.Table
