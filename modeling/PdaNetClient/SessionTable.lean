import PdaNetClient.Sweep
import PdaNetClient.Datagram
import PdaNetClient.TcpRuns

/-!
# The session table and `handle_events`

The list of sessions, newest first, and one machine for everything the event loop does
to it: the count, monitor and check at the top of the loop, a packet from tun, an event
on a socket, and `check_allowed` when the loop starts. `name` stands for the address of
a session. The inputs come in any order, so that runs of the program are among the runs.
-/
namespace PdaNetClient.Table

open Runs Sweep Datagram
open Tcp (Addr SockBuf)

set_option autoImplicit false

inductive Session where
  | icmp (s : IcmpSession)
  | udp (s : UdpSession)
  | tcp (s : Tcp.Session)
  deriving DecidableEq, Repr

structure Entry where
  name : Nat
  session : Session
  deriving DecidableEq, Repr

namespace Session

def socket : Session → Int
  | .icmp s => s.socket
  | .udp s => s.socket
  | .tcp s => s.socket

/-- What the loop counts. -/
def active : Session → Bool
  | .icmp s => !s.stop
  | .udp s => decide (s.state = .active)
  | .tcp s => decide (s.state ≠ .closing ∧ s.state ≠ .close)

end Session

structure TcpPacket where
  version : Nat
  saddr : Addr
  source : Nat
  daddr : Addr
  dest : Nat
  mss : Nat
  ws : Nat
  segment : Tcp.Packet
  deriving DecidableEq, Repr

/-- A packet from tun, decoded. -/
inductive Packet where
  | icmp (p : IcmpPacket)
  | udp (p : UdpPacket)
  | tcp (p : TcpPacket)
  deriving DecidableEq, Repr

/-- What is compared of an address. -/
def addrKey (version : Nat) (a : Addr) : Bytes := if version = 4 then a.ip4 else a.ip6

/-- The comparison of addresses: the first four bytes for IPv4, all for IPv6. -/
def sameAddr (version : Nat) (a b : Addr) : Prop :=
  if version = 4 then a.ip4 = b.ip4 else a.ip6 = b.ip6

instance (version : Nat) (a b : Addr) : Decidable (sameAddr version a b) :=
  inferInstanceAs (Decidable (if version = 4 then a.ip4 = b.ip4 else a.ip6 = b.ip6))

/-- The search conditions of the handlers. -/
def matchesIcmp (p : IcmpPacket) (x : Entry) : Bool :=
  match x.session with
  | .icmp s => !s.stop && decide (s.version = p.version ∧ sameAddr p.version s.saddr p.saddr ∧
      sameAddr p.version s.daddr p.daddr)
  | _ => false

def matchesUdp (p : UdpPacket) (x : Entry) : Bool :=
  match x.session with
  | .udp s => decide (s.version = p.version ∧ s.source = p.source ∧ s.dest = p.dest ∧
      sameAddr p.version s.saddr p.saddr ∧ sameAddr p.version s.daddr p.daddr)
  | _ => false

def matchesTcp (p : TcpPacket) (x : Entry) : Bool :=
  match x.session with
  | .tcp s => decide (s.version = p.version ∧ s.source = p.source ∧ s.dest = p.dest ∧
      sameAddr p.version s.saddr p.saddr ∧ sameAddr p.version s.daddr p.daddr)
  | _ => false

structure Config where
  abi : Abi
  maxsessions : Nat
  fwd53 : Bool
  deriving DecidableEq, Repr

/-- The table, the next name, the descriptors the kernel has open for the sockets of the
program, and the count of the last top of the loop. -/
structure Loop where
  table : List Entry
  next : Nat
  opened : List Int
  sessions : Nat
  deriving DecidableEq, Repr

def empty : Loop := ⟨[], 0, [], 0⟩

/-- `freed` is the session that a check pass deletes. -/
inductive Out where
  | socket (fd : Int)
  | close (fd : Int)
  | tcp (name : Nat) (o : Tcp.Out)
  | datagram (name : Nat) (o : Datagram.Out)
  | reset (p : Tcp.TunPacket) (written : Bool)
  | freed (s : Session)
  deriving DecidableEq, Repr

/-- The descriptor that an output closes. -/
def Out.closes : Out → Option Int
  | .close fd => some fd
  | .tcp _ (.close fd) => some fd
  | .datagram _ (.close fd) => some fd
  | _ => none

/-- What opening a socket gives: no descriptor, or one, that a failure of the steps
behind `socket()` leaves open. -/
inductive OpenResult where
  | failed
  | leaked (fd : Nat)
  | ok (fd : Nat)
  deriving DecidableEq, Repr

/-- The descriptor that `socket()` returned. -/
def OpenResult.opens : OpenResult → Option Int
  | .failed => none
  | .leaked fd | .ok fd => some fd

/-- The outside during one packet. -/
structure PacketEnv where
  now : Int
  sock : OpenResult
  send : SendtoResult
  tun : Bool
  tcp : Tcp.PacketEnv
  rand : U32
  sndbuf : SockBuf

/-- The outside while one session is checked. -/
structure CheckAnswer where
  now : Int
  now2 : Int
  rstOk : Bool
  deriving DecidableEq, Repr

/-! ## Operations on the table -/

/-- A pass of the loop, with what it closes. -/
def Loop.pass (l : Loop) (f : Visit Entry Out) : Loop × List Out :=
  let r := sweep f l.table
  ({ l with table := r.1, opened := l.opened.filter (· ∉ r.2.filterMap Out.closes) }, r.2)

/-- `s->next = ng_session; ng_session = s;` with the descriptor just opened. -/
def Loop.insert (l : Loop) (fd : Nat) (x : Entry) : Loop :=
  { l with table := x :: l.table, next := l.next + 1, opened := (fd : Int) :: l.opened }

/-- A change of the session of one entry. -/
def tcpVisit (x : Entry) (r : Tcp.Session × List Tcp.Out) : Option Entry × List Out :=
  (some ⟨x.name, .tcp r.1⟩, r.2.map (.tcp x.name))

def udpVisit (x : Entry) (r : UdpSession × List Datagram.Out) : Option Entry × List Out :=
  (some ⟨x.name, .udp r.1⟩, r.2.map (.datagram x.name))

def icmpVisit (x : Entry) (r : IcmpSession × List Datagram.Out) : Option Entry × List Out :=
  (some ⟨x.name, .icmp r.1⟩, r.2.map (.datagram x.name))

/-! ## The top of the loop -/

/-- "Count sessions" -/
def count (table : List Entry) : Nat := table.countP fun x => x.session.active

/-- `monitor_tcp_session` for every TCP session whose socket is open. -/
def monitorVisit (abi : Abi) (e : Nat → Tcp.MonitorEnv) : Visit Entry Out := fun x =>
  match x.session with
  | .tcp s => tcpVisit x (Tcp.step abi s (.monitor (e x.name)))
  | _ => (some x, [])

/-- A visit of "Check sessions": the session is deleted when the check says so. -/
def deleteIf (del : Bool) (r : Option Entry × List Out) : Option Entry × List Out :=
  if del then (none, r.2 ++ (r.1.map fun x => Out.freed x.session).toList) else r

def checkVisit (sessions maxsessions : Nat) (e : Nat → CheckAnswer) : Visit Entry Out := fun x =>
  let a := e x.name
  match x.session with
  | .icmp s =>
    let r := checkIcmpSession ⟨a.now, a.now2, sessions, maxsessions⟩ s
    deleteIf r.2.1 (icmpVisit x (r.1, r.2.2))
  | .udp s =>
    let r := checkUdpSession ⟨a.now, a.now2, sessions, maxsessions⟩ s
    deleteIf r.2.1 (udpVisit x (r.1, r.2.2))
  | .tcp s =>
    let r := Tcp.checkTcpSession ⟨a.now, a.now2, sessions, maxsessions, a.rstOk⟩ s
    deleteIf r.2.1 (tcpVisit x (r.1, r.2.2))

/-- The count, and the monitor of the TCP sessions. -/
def monitorAll (c : Config) (e : Nat → Tcp.MonitorEnv) (l : Loop) : Loop × List Out :=
  { l with sessions := count l.table }.pass (monitorVisit c.abi e)

def checkAll (c : Config) (e : Nat → CheckAnswer) (l : Loop) : Loop × List Out :=
  l.pass (checkVisit l.sessions c.maxsessions e)

/-- "Terminate existing sessions not allowed anymore" -/
def allowedVisit (e : Nat → Bool) : Visit Entry Out := fun x =>
  match x.session with
  | .icmp s => icmpVisit x ({ s with stop := true }, [])
  | .udp s =>
    match s.state with
    | .active => udpVisit x ({ s with state := .finishing }, [])
    | .blocked => (none, [.freed x.session])
    | _ => (some x, [])
  | .tcp s =>
    if s.state ≠ .closing ∧ s.state ≠ .close then tcpVisit x (Tcp.writeRst (e x.name) s)
      else (some x, [])

def checkAllowed (e : Nat → Bool) (l : Loop) : Loop × List Out := l.pass (allowedVisit e)

/-! ## A packet from tun -/

/-- A new session behind `open_..._socket`, with what its first packet does. -/
def Loop.create (l : Loop) (r : OpenResult) (s : Nat → Session × List Out) : Loop × List Out :=
  match r with
  | .failed => (l, [])
  | .leaked fd => ({ l with opened := (fd : Int) :: l.opened }, [.socket fd])
  | .ok fd => (l.insert fd ⟨l.next, (s fd).1⟩, .socket fd :: (s fd).2)

/-- A packet for the session `x`. -/
def Loop.visit (l : Loop) (x : Entry) (f : Visit Entry Out) : Loop × List Out :=
  l.pass (only Entry.name x.name f)

def handleIcmp (e : PacketEnv) (p : IcmpPacket) (l : Loop) : Loop × List Out :=
  if p.type ≠ icmpEcho then (l, [])
  else match l.table.find? (matchesIcmp p) with
    | some x => l.visit x fun x =>
      match x.session with
      | .icmp s => icmpVisit x (forwardIcmp e.now e.send p s)
      | _ => (some x, [])
    | none => l.create e.sock fun fd =>
      let r := forwardIcmp e.now e.send p (newIcmpSession e.now fd p)
      (.icmp r.1, r.2.map (.datagram l.next))

def handleUdp (e : PacketEnv) (p : UdpPacket) (l : Loop) : Loop × List Out :=
  match l.table.find? (matchesUdp p) with
  | some x => l.visit x fun x =>
    match x.session with
    | .udp s =>
      if s.state ≠ .active then (some x, []) else udpVisit x (forwardUdp ⟨e.now, e.send, e.tun⟩ p s)
    | _ => (some x, [])
  | none => l.create e.sock fun fd =>
    let r := forwardUdp ⟨e.now, e.send, e.tun⟩ p (newUdpSession e.now fd p)
    (.udp r.1, r.2.map (.datagram l.next))

def tcpSyn (e : PacketEnv) (p : TcpPacket) (fd : Nat) : Tcp.SynEnv where
  now := e.now
  version := p.version
  saddr := p.saddr
  daddr := p.daddr
  source := p.source
  dest := p.dest
  mss := p.mss
  ws := p.ws
  rand := e.rand
  socket := fd
  sndbuf := e.sndbuf

/-- The RST for an "unknown session". -/
def unknownReset (p : TcpPacket) : Tcp.TunPacket where
  version := 4
  saddr := p.daddr
  daddr := p.saddr
  source := p.dest
  dest := p.source
  seq := p.segment.ackSeq
  ackSeq := 0
  syn := false
  ack := false
  fin := false
  rst := true
  window := 0
  options := none
  data := []

def handleTcp (abi : Abi) (e : PacketEnv) (p : TcpPacket) (l : Loop) : Loop × List Out :=
  match l.table.find? (matchesTcp p) with
  | some x => l.visit x fun x =>
    match x.session with
    | .tcp s => tcpVisit x (Tcp.step abi s (.packet e.tcp p.segment))
    | _ => (some x, [])
  | none =>
    if p.segment.urg then (l, [])
    else if p.segment.syn then
      l.create e.sock fun fd => (.tcp (Tcp.newSession (tcpSyn e p fd) p.segment), [])
    else (l, [.reset (unknownReset p) e.tcp.tun.rst])

def hasUdpSession (c : Config) (p : UdpPacket) (table : List Entry) : Bool :=
  (decide (p.dest = 53) && !c.fwd53) || (table.find? (matchesUdp p)).isSome

/-- "Limit number of sessions": with the count passed down from the top of the loop. -/
def limited (c : Config) (p : Packet) (l : Loop) : Bool :=
  decide (c.maxsessions ≤ l.sessions) && match p with
    | .icmp _ => true
    | .udp p => !hasUdpSession c p l.table
    | .tcp p => p.segment.syn

/-- `handle_ip` behind the decoding. -/
def handleIp (c : Config) (e : PacketEnv) (p : Packet) (l : Loop) : Loop × List Out :=
  if limited c p l then (l, [])
  else match p with
    | .icmp p => handleIcmp e p l
    | .udp p => handleUdp e p l
    | .tcp p => handleTcp c.abi e p l

/-! ## An event on a socket -/

/-- "Check downstream"; a UDP session is read while there is something to read, one
event for each. -/
def socketVisit (abi : Abi) (e : SocketEnv) (t : Tcp.SocketEnv) : Visit Entry Out := fun x =>
  if x.session.socket < 0 then (some x, [])
  else match x.session with
    | .icmp s => icmpVisit x (checkIcmpSocket e s)
    | .udp s => if !e.ev.err && e.ev.inn then udpVisit x (checkUdpSocket e s) else (some x, [])
    | .tcp s => tcpVisit x (Tcp.step abi s (.socket t))

/-- `clear`, when the loop has ended. -/
def clearVisit : Visit Entry Out := fun x =>
  (none, if 0 ≤ x.session.socket then [.close x.session.socket] else [])

inductive Input where
  | monitor (e : Nat → Tcp.MonitorEnv)
  | check (e : Nat → CheckAnswer)
  | packet (e : PacketEnv) (p : Packet)
  | socket (name : Nat) (e : SocketEnv) (t : Tcp.SocketEnv)
  | allowed (e : Nat → Bool)
  | clear

/-- The check pass follows the monitor at the top of the loop, if 100 ms have passed. -/
def step (c : Config) : Machine Loop Input Out
  | l, .monitor e => monitorAll c e l
  | l, .check e => checkAll c e l
  | l, .packet e p => handleIp c e p l
  | l, .socket name e t => l.pass (only Entry.name name (socketVisit c.abi e t))
  | l, .allowed e => checkAllowed e l
  | l, .clear => l.pass clearVisit

/-! ## What a packet does -/

/-- The search of the handler for a packet. -/
def Packet.finds : Packet → Entry → Bool
  | .icmp p => matchesIcmp p
  | .udp p => matchesUdp p
  | .tcp p => matchesTcp p

/-- The handler opens a socket for such a packet when it finds no session. -/
def Packet.starts : Packet → Prop
  | .icmp p => p.type = icmpEcho
  | .udp _ => True
  | .tcp p => p.segment.urg = false ∧ p.segment.syn = true

/-- What a packet does to the session that it finds. -/
def packetVisit (abi : Abi) (e : PacketEnv) : Packet → Visit Entry Out
  | .icmp p => fun x =>
    match x.session with
    | .icmp s => icmpVisit x (forwardIcmp e.now e.send p s)
    | _ => (some x, [])
  | .udp p => fun x =>
    match x.session with
    | .udp s =>
      if s.state ≠ .active then (some x, []) else udpVisit x (forwardUdp ⟨e.now, e.send, e.tun⟩ p s)
    | _ => (some x, [])
  | .tcp p => fun x =>
    match x.session with
    | .tcp s => tcpVisit x (Tcp.step abi s (.packet e.tcp p.segment))
    | _ => (some x, [])

/-- The session that a packet creates on the descriptor `fd`, behind its first packet. -/
def created (e : PacketEnv) (name : Nat) : Packet → Nat → Session × List Out
  | .icmp p => fun fd =>
    let r := forwardIcmp e.now e.send p (newIcmpSession e.now fd p)
    (.icmp r.1, r.2.map (.datagram name))
  | .udp p => fun fd =>
    let r := forwardUdp ⟨e.now, e.send, e.tun⟩ p (newUdpSession e.now fd p)
    (.udp r.1, r.2.map (.datagram name))
  | .tcp p => fun fd => (.tcp (Tcp.newSession (tcpSyn e p fd) p.segment), [])

@[elab_as_elim]
theorem packetVisit_cases {motive : Option Entry × List Out → Prop} (abi : Abi) (e : PacketEnv)
    (p : Packet) (x : Entry) (stay : motive (some x, []))
    (icmp : ∀ q s, p = .icmp q → x.session = .icmp s →
      motive (icmpVisit x (forwardIcmp e.now e.send q s)))
    (udp : ∀ q s, p = .udp q → x.session = .udp s → s.state = .active →
      motive (udpVisit x (forwardUdp ⟨e.now, e.send, e.tun⟩ q s)))
    (tcp : ∀ q s, p = .tcp q → x.session = .tcp s →
      motive (tcpVisit x (Tcp.step abi s (.packet e.tcp q.segment)))) :
    motive (packetVisit abi e p x) := by
  cases p with
  | icmp p =>
    simp only [packetVisit]
    split
    · exact icmp p _ rfl ‹_›
    · exact stay
  | udp p =>
    simp only [packetVisit]
    split
    · rename_i s hs
      split
      · exact stay
      · rename_i hst
        exact udp p s rfl hs (Decidable.not_not.mp hst)
    · exact stay
  | tcp p =>
    simp only [packetVisit]
    split
    · exact tcp p _ rfl ‹_›
    · exact stay

/-- A packet is dropped or answered with a reset, or goes to the session that it finds, or
creates one. -/
@[elab_as_elim]
theorem handleIp_cases {motive : Loop × List Out → Prop} (c : Config) (e : PacketEnv) (p : Packet)
    (l : Loop)
    (drop : (limited c p l = false → l.table.find? p.finds = none → ¬ p.starts) → motive (l, []))
    (reset : ∀ q, p = .tcp q → l.table.find? p.finds = none → ¬ p.starts →
      motive (l, [.reset (unknownReset q) e.tcp.tun.rst]))
    (visit : ∀ x, limited c p l = false → l.table.find? p.finds = some x →
      motive (l.visit x (packetVisit c.abi e p)))
    (create : limited c p l = false → l.table.find? p.finds = none → p.starts →
      motive (l.create e.sock (created e l.next p))) :
    motive (handleIp c e p l) := by
  unfold handleIp
  cases hlimit : limited c p l with
  | true => exact drop fun h => by simp [hlimit] at h
  | false =>
    cases p with
    | icmp p =>
      show motive (handleIcmp e p l)
      unfold handleIcmp
      by_cases hecho : p.type = icmpEcho
      · rw [if_neg (by simp [hecho])]
        cases hfind : l.table.find? (matchesIcmp p) with
        | some x => exact visit x hlimit hfind
        | none => exact create hlimit hfind hecho
      · rw [if_pos hecho]
        exact drop fun _ _ => hecho
    | udp p =>
      show motive (handleUdp e p l)
      unfold handleUdp
      cases hfind : l.table.find? (matchesUdp p) with
      | some x => exact visit x hlimit hfind
      | none => exact create hlimit hfind trivial
    | tcp p =>
      show motive (handleTcp c.abi e p l)
      unfold handleTcp
      cases hfind : l.table.find? (matchesTcp p) with
      | some x => exact visit x hlimit hfind
      | none =>
        cases hurg : p.segment.urg with
        | true => exact drop fun _ _ hstarts => by simp [Packet.starts, hurg] at hstarts
        | false =>
          cases hsyn : p.segment.syn with
          | true => exact create hlimit hfind ⟨hurg, hsyn⟩
          | false => exact reset p rfl hfind fun hstarts => by simp [Packet.starts, hsyn] at hstarts

/-! ## Names -/

/-- A visit leaves the name of its entry, or deletes it. -/
def KeepsName (x : Entry) (r : Option Entry × List Out) : Prop :=
  ∀ y, r.1 = some y → y.name = x.name

/-- Names are unique, and a name is not given twice. -/
structure Named (l : Loop) : Prop where
  unique : (l.table.map Entry.name).Nodup
  next : ∀ x ∈ l.table, x.name < l.next

section

variable {x : Entry} {l : Loop}

theorem keepsName_stay (outs : List Out) : KeepsName x (some x, outs) := by
  rintro y ⟨⟩
  rfl

theorem keepsName_gone (outs : List Out) : KeepsName x (none, outs) := fun y hy => by cases hy

theorem keepsName_tcp (r : Tcp.Session × List Tcp.Out) : KeepsName x (tcpVisit x r) := by
  rintro y ⟨⟩
  rfl

theorem keepsName_udp (r : UdpSession × List Datagram.Out) : KeepsName x (udpVisit x r) := by
  rintro y ⟨⟩
  rfl

theorem keepsName_icmp (r : IcmpSession × List Datagram.Out) : KeepsName x (icmpVisit x r) := by
  rintro y ⟨⟩
  rfl

theorem KeepsName.deleteIf {r : Option Entry × List Out} (h : KeepsName x r) (del : Bool) :
    KeepsName x (deleteIf del r) := by
  cases del with
  | false => exact h
  | true => exact keepsName_gone _

theorem KeepsName.only {name : Nat} {f : Visit Entry Out} (h : KeepsName x (f x)) :
    KeepsName x (only Entry.name name f x) := by
  refine only_cases Entry.name name f x ?_ ?_
  · exact keepsName_stay _
  · exact fun _ => h

theorem Named.eq (h : Named l) {x y : Entry} (hx : x ∈ l.table) (hy : y ∈ l.table)
    (hname : y.name = x.name) : y = x :=
  List.inj_on_of_nodup_map h.unique hy hx hname

theorem Named.ne_next (h : Named l) {x : Entry} (hx : x ∈ l.table) : x.name ≠ l.next :=
  Nat.ne_of_lt (h.next x hx)

theorem Named.pass (h : Named l) {f : Visit Entry Out}
    (hf : ∀ x ∈ l.table, KeepsName x (f x)) : Named (l.pass f).1 := by
  have hnames : ((sweep f l.table).1.map Entry.name).Sublist (l.table.map Entry.name) :=
    map_sublist hf
  refine ⟨hnames.nodup h.unique, fun y hy => ?_⟩
  obtain ⟨x, hx, hxy⟩ := mem_sweep.mp hy
  exact hf x hx y hxy ▸ h.next x hx

theorem Named.create (h : Named l) (r : OpenResult) (s : Nat → Session × List Out) :
    Named (l.create r s).1 := by
  cases r with
  | failed => exact h
  | leaked fd => exact ⟨h.unique, h.next⟩
  | ok fd =>
    refine ⟨List.nodup_cons.mpr ⟨fun hmem => ?_, h.unique⟩, ?_⟩
    · obtain ⟨x, hx, hname⟩ := List.mem_map.mp hmem
      exact h.ne_next hx hname
    · exact List.forall_mem_cons.mpr ⟨Nat.lt_succ_self _,
        fun x hx => Nat.lt_succ_of_lt (h.next x hx)⟩

theorem monitorVisit_name (abi : Abi) (e : Nat → Tcp.MonitorEnv) (x : Entry) :
    KeepsName x (monitorVisit abi e x) := by
  unfold monitorVisit
  split
  · exact keepsName_tcp _
  · exact keepsName_stay _

theorem checkVisit_name (sessions maxsessions : Nat) (e : Nat → CheckAnswer) (x : Entry) :
    KeepsName x (checkVisit sessions maxsessions e x) := by
  unfold checkVisit
  simp only
  split
  · exact (keepsName_icmp _).deleteIf _
  · exact (keepsName_udp _).deleteIf _
  · exact (keepsName_tcp _).deleteIf _

theorem allowedVisit_name (e : Nat → Bool) (x : Entry) : KeepsName x (allowedVisit e x) := by
  unfold allowedVisit
  split
  · exact keepsName_icmp _
  · split
    · exact keepsName_udp _
    · exact keepsName_gone _
    · exact keepsName_stay _
  · split
    · exact keepsName_tcp _
    · exact keepsName_stay _

theorem socketVisit_name (abi : Abi) (e : SocketEnv) (t : Tcp.SocketEnv) (x : Entry) :
    KeepsName x (socketVisit abi e t x) := by
  unfold socketVisit
  split
  · exact keepsName_stay _
  · split
    · exact keepsName_icmp _
    · split
      · exact keepsName_udp _
      · exact keepsName_stay _
    · exact keepsName_tcp _

theorem packetVisit_name (abi : Abi) (e : PacketEnv) (p : Packet) (x : Entry) :
    KeepsName x (packetVisit abi e p x) := by
  refine packetVisit_cases abi e p x ?_ ?_ ?_ ?_
  · exact keepsName_stay _
  · exact fun _ _ _ _ => keepsName_icmp _
  · exact fun _ _ _ _ _ => keepsName_udp _
  · exact fun _ _ _ _ => keepsName_tcp _

theorem handleIp_named (h : Named l) (c : Config) (e : PacketEnv) (p : Packet) :
    Named (handleIp c e p l).1 := by
  refine handleIp_cases c e p l ?_ ?_ ?_ ?_
  · exact fun _ => h
  · exact fun _ _ _ _ => h
  · exact fun x _ _ => h.pass fun y _ => (packetVisit_name c.abi e p y).only
  · exact fun _ _ _ => h.create _ _

theorem step_named (c : Config) (h : Named l) (i : Input) : Named (step c l i).1 := by
  cases i with
  | monitor e =>
    have hcount : Named { l with sessions := count l.table } := ⟨h.unique, h.next⟩
    exact hcount.pass fun x _ => monitorVisit_name c.abi e x
  | check e => exact h.pass fun x _ => checkVisit_name _ _ e x
  | packet e p => exact handleIp_named h c e p
  | socket name e t => exact h.pass fun x _ => (socketVisit_name c.abi e t x).only
  | allowed e => exact h.pass fun x _ => allowedVisit_name e x
  | clear => exact h.pass fun x _ => keepsName_gone _

theorem empty_named : Named empty := ⟨by simp [empty], by simp [empty]⟩

end

/-! ## Fixed packets

The runs that show where a property fails start from these. -/

def client : Addr := .ofIp4 10 1 10 1

def server (n : UInt8) : Addr := .ofIp4 93 184 216 n

def plainConfig (maxsessions : Nat) (fwd53 : Bool) : Config := ⟨.arm64V8a, maxsessions, fwd53⟩

/-- Everything works, and a socket gets the descriptor `fd`. -/
def plainEnv (fd : Nat) : PacketEnv := ⟨0, .ok fd, .all, true, Tcp.plainEnv, 5000, ⟨65536, 0⟩⟩

def udpPacket (saddr : Addr) (source : Nat) (daddr : Addr) (dest : Nat) (data : Bytes) : Packet :=
  .udp ⟨4, saddr, source, daddr, dest, data⟩

def icmpPacket (daddr : Addr) : Packet := .icmp ⟨4, client, daddr, icmpEcho, 1, []⟩

def tcpPacket (dest : Nat) (segment : Tcp.Packet) : Packet :=
  .tcp ⟨4, client, 40000, server 34, dest, 1400, 0, segment⟩

def datagramEvent (bytes : Bytes) : SocketEnv := ⟨⟨true, false, false⟩, 0, .ok bytes, true⟩

def answerAt (now : Int) : CheckAnswer := ⟨now, now, true⟩

end PdaNetClient.Table
