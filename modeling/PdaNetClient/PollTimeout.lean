import PdaNetClient.Timeouts

/-!
# The sleep of the event loop

A check pass ends what is due and leaves a timeout for `epoll_wait`: the least of what
the open sessions have left. A closed session is deleted by a later pass, but what it
has left does not shorten the timeout; so the loop wakes for it only if something else
wakes it.
-/
namespace PdaNetClient.Table

open Sweep Datagram

set_option autoImplicit false

/-- `EPOLL_TIMEOUT` in seconds. -/
def epollTimeout : Int := 3600

namespace Session

/-- Last activity and idle timeout of an open session, closing time and keep of a closed one. -/
def deadline (sessions maxsessions : Int) : Session → Int
  | .icmp s => s.time + getIcmpTimeout sessions maxsessions
  | .udp s =>
    s.time + if s.state = .active then getUdpTimeout s sessions maxsessions else udpKeepTimeout
  | .tcp s =>
    s.time + if s.state.closed then Tcp.tcpKeepTimeout else Tcp.getTcpTimeout s sessions maxsessions

/-- The session was told to end, and the next check ends it. -/
def ending : Session → Bool
  | .icmp s => s.stop
  | .udp s => decide (s.state = .finishing)
  | .tcp s => decide (s.state = .closing)

/-- How long a closed session is kept. -/
def keep : Session → Option Int
  | .icmp _ => none
  | .udp _ => some udpKeepTimeout
  | .tcp _ => some Tcp.tcpKeepTimeout

end Session

/-- `stimeout`, for a session that the check leaves open. -/
def stimeout (sessions maxsessions now : Int) : Session → Int
  | .icmp s => toInt32 (s.time + getIcmpTimeout sessions maxsessions - now + 1)
  | .udp s => toInt32 (s.time + getUdpTimeout s sessions maxsessions - now + 1)
  | .tcp s => toInt32 (s.time + Tcp.getTcpTimeout s sessions maxsessions - now + 1)

def shorten (timeout stimeout : Int) : Int :=
  if 0 < stimeout ∧ stimeout < timeout then stimeout else timeout

/-- The clock stands still during the pass. -/
def answersAt (now : Int) (rst : Nat → Bool) (name : Nat) : CheckAnswer := ⟨now, now, rst name⟩

/-- The timeout behind the check of one session. -/
def timeoutVisit (sessions maxsessions : Nat) (now timeout : Int) : Option Entry → Int
  | some y =>
    if y.session.active then shorten timeout (stimeout sessions maxsessions now y.session)
      else timeout
  | none => timeout

/-- The timeout that a check pass leaves for `epoll_wait`. -/
def checkTimeout (sessions maxsessions : Nat) (now : Int) (rst : Nat → Bool)
    (table : List Entry) : Int :=
  table.foldl (fun timeout x =>
    timeoutVisit sessions maxsessions now timeout
      (checkVisit sessions maxsessions (answersAt now rst) x).1) epollTimeout

/-- The table that a check pass leaves. -/
def checked (sessions maxsessions : Nat) (now : Int) (rst : Nat → Bool)
    (table : List Entry) : List Entry :=
  (sweep (checkVisit sessions maxsessions (answersAt now rst)) table).1

/-- The session that a packet finds. -/
def finds (p : Packet) (table : List Entry) : Option Entry :=
  match p with
  | .icmp p => table.find? (matchesIcmp p)
  | .udp p => table.find? (matchesUdp p)
  | .tcp p => table.find? (matchesTcp p)

/-- The pass ends nothing early, the loop sleeps past no deadline, and no packet that is
read while it sleeps finds a closed session behind its deadline. -/
structure Covers (sessions maxsessions : Nat) (now : Int) (rst : Nat → Bool)
    (table : List Entry) : Prop where
  least : 1 ≤ checkTimeout sessions maxsessions now rst table
  covered : ∀ y ∈ checked sessions maxsessions now rst table,
    checkTimeout sessions maxsessions now rst table ≤
      y.session.deadline sessions maxsessions - now + 1
  early : ∀ x ∈ table, x.session.ending = false → now ≤ x.session.deadline sessions maxsessions →
    ∃ y, (checkVisit sessions maxsessions (answersAt now rst) x).1 = some y ∧
    y.session.active = x.session.active
  fresh : ∀ t, now ≤ t → t < now + checkTimeout sessions maxsessions now rst table →
    ∀ p y, finds p (checked sessions maxsessions now rst table) = some y →
    y.session.active = false →
      t ≤ y.session.deadline sessions maxsessions

section

variable {sessions maxsessions : Nat} {now : Int} {rst : Nat → Bool}

theorem ending_of_active {s : Session} (h : s.active = true) : s.ending = false := by
  cases s with
  | icmp s => simpa [Session.active, Session.ending] using h
  | udp s =>
    have hstate : s.state = .active := by simpa [Session.active] using h
    simp [Session.ending, hstate]
  | tcp s =>
    have hopen := (active_tcp_iff s).mp h
    have hne : s.state ≠ .closing := fun hclosing => hopen (.inl hclosing)
    simpa [Session.ending] using hne

end

/-! ## A table that is not covered -/

/-- A DNS session behind its answer. -/
def answered : Loop :=
  (Runs.run (step (plainConfig 1000 true)) empty
    [.packet (plainEnv 5) (udpPacket client 40000 (server 1) 53 [1]),
      .socket 0 (datagramEvent [2]) Tcp.writable]).1

end PdaNetClient.Table
