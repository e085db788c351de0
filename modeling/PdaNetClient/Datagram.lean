import PdaNetClient.TcpSession

/-!
# ICMP and UDP sessions

The functions of `icmp.c`, `udp.c` and `dhcp.c` on one session. What a handler sends on
its socket and writes to tun is an output; the bytes of an ICMP message and of an answer
to the client are not looked into here. Of the DNS messages neither: `udp.c` only logs what
`dns.c` finds in them. A call of it that does not return cuts the run, as `Dns.runDns` says.
-/
namespace PdaNetClient.Datagram

open Tcp (Addr Errno Events RecvResult)

set_option autoImplicit false

/-- What `sendto` answers: the length asked for, or anything else with some `errno`. -/
inductive SendtoResult where
  | all
  | short (errno : Errno)
  deriving DecidableEq, Repr

/-- A failure after which the session is given up. -/
def SendtoResult.fatal : SendtoResult → Bool
  | .all => false
  | .short errno => decide (errno ≠ .eintr ∧ errno ≠ .eagain)

/-- What ends a session that reads: a real error, or the end of the stream. -/
def readFails : RecvResult → Bool
  | .fail errno => decide (errno ≠ .eintr ∧ errno ≠ .eagain)
  | .ok bytes => bytes.isEmpty

inductive Out where
  | sendto (fd : Int) (data : Bytes)
  | tun (written : Bool)
  | close (fd : Int)
  deriving DecidableEq, Repr

/-- A timeout shrinks with the share of the sessions that are taken. -/
def scaleTimeout (timeout sessions maxsessions : Int) : Int :=
  (timeout * (100 - (sessions * 100).tdiv maxsessions)).tdiv 100

structure CheckEnv where
  now : Int
  now2 : Int
  sessions : Int
  maxsessions : Int
  deriving DecidableEq, Repr

/-- One event, what `recv` answers, and whether tun takes what is written. -/
structure SocketEnv where
  ev : Events
  now : Int
  recv : RecvResult
  tun : Bool
  deriving DecidableEq, Repr

/-! ## ICMP -/

structure IcmpSession where
  time : Int
  version : Nat
  saddr : Addr
  daddr : Addr
  id : BitVec 16
  stop : Bool
  socket : Int
  deriving DecidableEq, Repr

structure IcmpPacket where
  version : Nat
  saddr : Addr
  daddr : Addr
  type : UInt8
  id : BitVec 16
  message : Bytes
  deriving DecidableEq, Repr

def icmpEcho : UInt8 := 8

def icmpTimeout : Int := 15

def getIcmpTimeout (sessions maxsessions : Int) : Int :=
  scaleTimeout icmpTimeout sessions maxsessions

/-- The Boolean says that the session is to be deleted. -/
def checkIcmpSession (e : CheckEnv) (s : IcmpSession) : IcmpSession × Bool × List Out :=
  if s.stop ∨ s.time + getIcmpTimeout e.sessions e.maxsessions < e.now then
    ({ s with socket := -1 }, true, [.close s.socket])
  else (s, false, [])

def checkIcmpSocket (e : SocketEnv) (s : IcmpSession) : IcmpSession × List Out :=
  if e.ev.err then ({ s with time := e.now, stop := true }, [])
  else if e.ev.inn then
    if readFails e.recv then ({ s with time := e.now, stop := true }, [])
    else match e.recv with
      | .fail _ => ({ s with time := e.now }, [])
      | .ok _ => ({ s with time := e.now, stop := s.stop || !e.tun }, [.tun e.tun])
  else (s, [])

def newIcmpSession (now : Int) (socket : Nat) (p : IcmpPacket) : IcmpSession where
  time := now
  version := p.version
  saddr := p.saddr
  daddr := p.daddr
  id := p.id
  stop := false
  socket := socket

/-- The part of `handle_icmp` behind the search. -/
def forwardIcmp (now : Int) (send : SendtoResult) (p : IcmpPacket) (s : IcmpSession) :
    IcmpSession × List Out :=
  ({ s with time := now, stop := s.stop || send.fatal }, [.sendto s.socket p.message])

/-! ## UDP -/

inductive UdpState where
  | active | finishing | closed | blocked
  deriving DecidableEq, Repr

structure UdpSession where
  time : Int
  version : Nat
  mss : Nat
  sent : Nat
  received : Nat
  saddr : Addr
  source : Nat
  daddr : Addr
  dest : Nat
  state : UdpState
  socket : Int
  deriving DecidableEq, Repr

structure UdpPacket where
  version : Nat
  saddr : Addr
  source : Nat
  daddr : Addr
  dest : Nat
  data : Bytes
  deriving DecidableEq, Repr

def udpTimeout53 : Int := 15
def udpTimeoutAny : Int := 300
def udpKeepTimeout : Int := 60

def getUdpTimeout (s : UdpSession) (sessions maxsessions : Int) : Int :=
  scaleTimeout (if s.dest = 53 then udpTimeout53 else udpTimeoutAny) sessions maxsessions

/-- The idle timeout of `check_udp_session`. -/
def expireUdp (e : CheckEnv) (s : UdpSession) : UdpSession :=
  if s.state = .active ∧ s.time + getUdpTimeout s e.sessions e.maxsessions <
    e.now then { s with state := .finishing }
  else s

/-- "Check finished sessions" -/
def finishUdp (e : CheckEnv) (s : UdpSession) : UdpSession × List Out :=
  if s.state = .finishing then ({ s with socket := -1, time := e.now2, state := .closed },
    [.close s.socket])
  else (s, [])

/-- The Boolean says that the session is to be deleted. -/
def checkUdpSession (e : CheckEnv) (s : UdpSession) : UdpSession × Bool × List Out :=
  let f := finishUdp e (expireUdp e s)
  let t := if f.1.state = .closed then { f.1 with sent := 0, received := 0 } else f.1
  (t, decide ((t.state = .closed ∨ t.state = .blocked) ∧ t.time + udpKeepTimeout < e.now), f.2)

/-- "Prevent too many open files": a session to port 53 is done with its first answer. This is once
`parse_dns_response` has returned, which is handed what comes from port 53 before it is written. -/
def checkUdpSocket (e : SocketEnv) (s : UdpSession) : UdpSession × List Out :=
  if e.ev.err then ({ s with time := e.now, state := .finishing }, [])
  else if e.ev.inn then
    if readFails e.recv then ({ s with time := e.now, state := .finishing }, [])
    else match e.recv with
      | .fail _ => ({ s with time := e.now }, [])
      | .ok bytes =>
        let s := { s with time := e.now, received := s.received + (bytes.take s.mss).length }
        (if !e.tun ∨ s.dest = 53 then { s with state := .finishing } else s, [.tun e.tun])
  else (s, [])

/-- What `check_udp_socket` has read when it comes to `parse_dns_response` and `write_udp`. -/
def answer (e : SocketEnv) (s : UdpSession) : Option Bytes :=
  if e.ev.err then none
  else if e.ev.inn then
    if readFails e.recv then none
    else match e.recv with
      | .fail _ => none
      | .ok bytes => some (bytes.take s.mss)
  else none

def udp4Maxmsg : Nat := 65535 - 20 - 8
def udp6Maxmsg : Nat := 65535 - 40 - 8

def newUdpSession (now : Int) (socket : Nat) (p : UdpPacket) : UdpSession where
  time := now
  version := p.version
  mss := if p.version = 4 then udp4Maxmsg else udp6Maxmsg
  sent := 0
  received := 0
  saddr := p.saddr
  source := p.source
  daddr := p.daddr
  dest := p.dest
  state := .active
  socket := socket

/-! ## DHCP -/

/-- `sizeof(struct dhcp_packet)` -/
def dhcpPacketSize : Nat := 240

/-- `DHCP_OPTION_MAGIC_NUMBER` in network order. -/
def dhcpMagic : Bytes := [0x63, 0x82, 0x53, 0x63]

/-- The packet passes the checks of `check_dhcp`: size, magic number and hardware. -/
def isDhcp (data : Bytes) : Prop :=
  dhcpPacketSize ≤ data.length ∧ (data.drop 236).take 4 = dhcpMagic ∧ data[1]? = some 1 ∧
    data[2]? = some 6

instance (data : Bytes) : Decidable (isDhcp data) := inferInstanceAs (Decidable (_ ∧ _))

/-- "Discover/request" -/
def isDhcpRequest (data : Bytes) : Prop := isDhcp data ∧ data[0]? = some 1

instance (data : Bytes) : Decidable (isDhcpRequest data) := inferInstanceAs (Decidable (_ ∧ _))

/-- `inet_pton(AF_INET, "10.1.10.1", &u->saddr)`: the first four bytes of the union. -/
def serverAddr (a : Addr) : Addr where
  ip6 := [10, 1, 10, 1] ++ a.ip6.drop 4
  length_eq := by simp [a.length_eq]

/-- `check_dhcp`; `none` is its result -1. The session is written to although it is passed
as `const`. -/
def checkDhcp (tun : Bool) (data : Bytes) (s : UdpSession) : Option (UdpSession × List Out) :=
  if isDhcp data then
    if data[0]? = some 1 then some ({ s with saddr := serverAddr s.saddr }, [.tun tun])
      else some (s, [])
  else none

structure UdpEnv where
  now : Int
  send : SendtoResult
  tun : Bool
  deriving DecidableEq, Repr

/-- The ports for which `handle_udp` asks `check_dhcp`. -/
def dhcpPorts (p : UdpPacket) : Prop := p.source = 68 ∨ p.dest = 67

instance (p : UdpPacket) : Decidable (dhcpPorts p) := inferInstanceAs (Decidable (_ ∨ _))

/-- The forwarding at the end of `handle_udp`. -/
def sendUdp (e : UdpEnv) (p : UdpPacket) (s : UdpSession) : UdpSession × List Out :=
  let s := { s with time := e.now }
  (match e.send with
    | .all => { s with sent := s.sent + p.data.length }
    | .short _ => if e.send.fatal then { s with state := .finishing } else s,
        [.sendto s.socket p.data])

/-- The part of `handle_udp` behind the search, for an active session, once `get_dns_query` has
returned, which is handed what goes to port 53. -/
def forwardUdp (e : UdpEnv) (p : UdpPacket) (s : UdpSession) : UdpSession × List Out :=
  if dhcpPorts p then
    match checkDhcp e.tun p.data s with
    | some r => r
    | none => sendUdp e p s
  else sendUdp e p s

/-! ## What the handlers leave -/

/-- The descriptor that an output closes. -/
def Out.closes : Out → Option Int
  | .close fd => some fd
  | _ => none

/-- The key of a session. -/
def IcmpSession.fixed (s : IcmpSession) : Nat × Addr × Addr := (s.version, s.saddr, s.daddr)

/-- A handler that does not close: it may stop the session. -/
structure IcmpLeaves (s : IcmpSession) (r : IcmpSession × List Out) : Prop where
  fixed : r.1.fixed = s.fixed
  socket : r.1.socket = s.socket
  stop : s.stop = true → r.1.stop = true
  closes : r.2.filterMap Out.closes = []

theorem checkIcmpSocket_leaves (e : SocketEnv) (s : IcmpSession) :
    IcmpLeaves s (checkIcmpSocket e s) := by
  unfold checkIcmpSocket
  split
  · exact ⟨rfl, rfl, fun _ => rfl, rfl⟩
  · split
    · split
      · exact ⟨rfl, rfl, fun _ => rfl, rfl⟩
      · split
        · exact ⟨rfl, rfl, id, rfl⟩
        · exact ⟨rfl, rfl, fun h => by simp [h], rfl⟩
    · exact ⟨rfl, rfl, id, rfl⟩

theorem forwardIcmp_leaves (now : Int) (send : SendtoResult) (p : IcmpPacket) (s : IcmpSession) :
    IcmpLeaves s (forwardIcmp now send p s) := ⟨rfl, rfl, fun h => by simp [forwardIcmp, h], rfl⟩

/-- The key of a session, its source address apart. -/
def UdpSession.fixed (s : UdpSession) : Nat × Nat × Addr × Nat :=
  (s.version, s.source, s.daddr, s.dest)

/-- A handler that does not close: it may finish the session. -/
structure UdpLeaves (s : UdpSession) (r : UdpSession × List Out) : Prop where
  fixed : r.1.fixed = s.fixed
  socket : r.1.socket = s.socket
  state : r.1.state = s.state ∨ r.1.state = .finishing
  closes : r.2.filterMap Out.closes = []

theorem checkUdpSocket_leaves (e : SocketEnv) (s : UdpSession) :
    UdpLeaves s (checkUdpSocket e s) ∧ (checkUdpSocket e s).1.saddr = s.saddr := by
  unfold checkUdpSocket
  split
  · exact ⟨⟨rfl, rfl, .inr rfl, rfl⟩, rfl⟩
  · split
    · split
      · exact ⟨⟨rfl, rfl, .inr rfl, rfl⟩, rfl⟩
      · split
        · exact ⟨⟨rfl, rfl, .inl rfl, rfl⟩, rfl⟩
        · simp only
          split
          · exact ⟨⟨rfl, rfl, .inr rfl, rfl⟩, rfl⟩
          · exact ⟨⟨rfl, rfl, .inl rfl, rfl⟩, rfl⟩
    · exact ⟨⟨rfl, rfl, .inl rfl, rfl⟩, rfl⟩

theorem sendUdp_leaves (e : UdpEnv) (p : UdpPacket) (s : UdpSession) :
    UdpLeaves s (sendUdp e p s) ∧ (sendUdp e p s).1.saddr = s.saddr := by
  unfold sendUdp
  simp only
  split
  · exact ⟨⟨rfl, rfl, .inl rfl, rfl⟩, rfl⟩
  · split
    · exact ⟨⟨rfl, rfl, .inr rfl, rfl⟩, rfl⟩
    · exact ⟨⟨rfl, rfl, .inl rfl, rfl⟩, rfl⟩

/-- A DHCP request that is answered rewrites the address; nothing else does. -/
theorem forwardUdp_leaves (e : UdpEnv) (p : UdpPacket) (s : UdpSession) :
    UdpLeaves s (forwardUdp e p s) ∧
      (forwardUdp e p s).1.saddr = if dhcpPorts p ∧
      isDhcpRequest p.data then serverAddr s.saddr else s.saddr := by
  have hsend := sendUdp_leaves e p s
  unfold forwardUdp
  by_cases hports : dhcpPorts p
  · by_cases hdhcp : isDhcp p.data
    · by_cases hop : p.data[0]? = some 1
      · simp only [checkDhcp, isDhcpRequest, hports, hdhcp, hop, if_true, and_self]
        exact ⟨⟨rfl, rfl, .inl rfl, rfl⟩, trivial⟩
      · simp only [checkDhcp, isDhcpRequest, hports, hdhcp, hop, if_true, if_false, and_false]
        exact ⟨⟨rfl, rfl, .inl rfl, rfl⟩, trivial⟩
    · simpa [checkDhcp, isDhcpRequest, hports, hdhcp] using hsend
  · simpa [hports] using hsend

/-- The check leaves a session that goes on, clears one that was closed, and closes one
that is finished or idle. -/
@[elab_as_elim]
theorem checkUdpSession_cases {motive : UdpSession × Bool × List Out → Prop} (e : CheckEnv)
    (s : UdpSession) (idle : s.state = .active → motive (s, false, []))
    (blocked : ∀ del, s.state = .blocked → motive (s, del, []))
    (closed : ∀ del, s.state = .closed → motive ({ s with sent := 0, received := 0 }, del, []))
    (close : ∀ t del, t =
      { s with socket := -1, time := e.now2, state := .closed, sent := 0, received := 0 } →
      (s.state = .active ∨ s.state = .finishing) → motive (t, del, [.close s.socket])) :
    motive (checkUdpSession e s) := by
  unfold checkUdpSession expireUdp
  cases hst : s.state with
  | active =>
    by_cases hidle : s.time + getUdpTimeout s e.sessions e.maxsessions < e.now
    · simpa [hst, hidle, finishUdp] using close _ _ rfl (.inl hst)
    · simpa [hst, hidle, finishUdp] using idle hst
  | finishing => simpa [hst, finishUdp] using close _ _ rfl (.inr hst)
  | closed => simpa [hst, finishUdp] using closed _ hst
  | blocked => simpa [hst, finishUdp] using blocked _ hst

end PdaNetClient.Datagram
