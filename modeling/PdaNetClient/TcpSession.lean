import PdaNetClient.Http

/-!
# TCP sessions: data and windows

The records of `tun2http.h` and the functions of `tcp.c` that only read a
session. `struct tcp_session` and the fields of `struct ng_session` that a TCP
session uses are one flat record. A segment cannot claim more bytes sent than it
has, and no payload is longer than its 16-bit length.
-/
namespace PdaNetClient.Tcp

open Http

set_option autoImplicit false

inductive State where
  | listen | synRecv | established | closeWait | finWait1 | lastAck | closing | close
  deriving DecidableEq, Repr

/-- `TCP_CLOSING` and `TCP_CLOSE`: the session is reset or finished. -/
def State.closed (st : State) : Prop := st = .closing ∨ st = .close

instance (st : State) : Decidable st.closed := inferInstanceAs (Decidable (_ ∨ _))

inductive ConnectSent where
  | notSent | sent | established
  deriving DecidableEq, Repr

/-- A payload whose length fits `uint16_t datalen`. -/
structure Payload where
  bytes : Bytes
  len_lt : bytes.length < 2 ^ 16
  deriving DecidableEq, Repr

structure Segment where
  seq : U32
  psh : Bool
  data : Payload
  sent : Nat
  sent_le : sent ≤ data.bytes.length
  deriving DecidableEq, Repr

namespace Segment

def len (g : Segment) : Nat := g.data.bytes.length

/-- `data + sent`: what a send is offered. -/
def rest (g : Segment) : Bytes := g.data.bytes.drop g.sent

def advance (g : Segment) (n : Nat) (h : n ≤ g.len - g.sent) : Segment :=
  { g with sent := g.sent + n, sent_le := by have := g.sent_le; simp only [len] at h; omega }

theorem sent_le_len (g : Segment) : g.sent ≤ g.len := g.sent_le
theorem len_lt (g : Segment) : g.len < 2 ^ 16 := g.data.len_lt

@[simp] theorem length_rest (g : Segment) : g.rest.length = g.len - g.sent := by simp [rest, len]

end Segment

/-- The 16 bytes of the address union; an IPv4 address is the first four. -/
structure Addr where
  ip6 : Bytes
  length_eq : ip6.length = 16
  deriving DecidableEq, Repr

def Addr.ip4 (a : Addr) : Bytes := a.ip6.take 4

structure Events where
  inn : Bool
  out : Bool
  err : Bool
  deriving DecidableEq, Repr

structure Session where
  time : Int
  version : Nat
  mss : Nat
  recvScale : Nat
  sendScale : Nat
  recvWindow : U32
  sendWindow : U32
  remoteSeq : U32
  localSeq : U32
  remoteStart : U32
  localStart : U32
  acked : U32
  lastKeepAlive : Int
  sent : Nat
  received : Nat
  saddr : Addr
  source : Nat
  daddr : Addr
  dest : Nat
  state : State
  forward : List Segment
  hostname : Bytes
  connectSent : ConnectSent
  socket : Int
  ev : Events
  deriving DecidableEq, Repr

/-- Destination ports that are relayed through the HTTP proxy. -/
def proxied (dest : Nat) : Prop := dest = 80 ∨ dest = 443

instance (dest : Nat) : Decidable (proxied dest) := inferInstanceAs (Decidable (_ ∨ _))

/-- A TCP segment read from tun, its header fields in host notation. -/
structure Packet where
  seq : U32
  ackSeq : U32
  urg : Bool
  ack : Bool
  psh : Bool
  rst : Bool
  syn : Bool
  fin : Bool
  window : BitVec 16
  data : Payload
  deriving DecidableEq, Repr

def Packet.datalen (p : Packet) : Nat := p.data.bytes.length

/-- The packet `write_tcp` builds, field by field. -/
structure TunPacket where
  version : Nat
  saddr : Addr
  daddr : Addr
  source : Nat
  dest : Nat
  seq : U32
  ackSeq : U32
  syn : Bool
  ack : Bool
  fin : Bool
  rst : Bool
  window : BitVec 16
  /-- MSS and window scale, on a SYN -/
  options : Option (Nat × Nat)
  data : Bytes
  deriving DecidableEq, Repr

inductive Errno where
  | eintr | eagain | other
  deriving DecidableEq, Repr

/-- What the kernel answers to `send`; a count above the length asked is the length. -/
inductive SendResult where
  | ok (n : Nat)
  | fail (e : Errno)
  deriving DecidableEq, Repr

/-- What the kernel answers to `recv`, before the cut to the length asked. -/
inductive RecvResult where
  | ok (bytes : Bytes)
  | fail (e : Errno)
  deriving DecidableEq, Repr

/-- What a handler does to the outside, with the state of the session at the
call. `connect` is the `send` of `handle_tcp`, `forward` the `send` of the
forward loop; an accepted count of `none` is a result of -1. `remoteFin` marks
the source's `remote_seq++; // remote FIN`. -/
inductive Out where
  | tun (st : State) (p : TunPacket) (written : Bool)
  | connect (st : State) (buf : Bytes) (accepted : Option Nat)
  | forward (st : State) (data : Bytes) (patch : Patch) (accepted : Option Nat)
  | recv (st : State) (asked : Nat) (got : Option Bytes)
  | remoteFin
  | close (fd : Int)
  | crash
  deriving DecidableEq, Repr

/-- `SO_SNDBUF` and `SIOCOUTQ` at the moment they are asked for. -/
structure SockBuf where
  sendbuf : Int
  unsent : Int
  deriving DecidableEq, Repr

def getReceiveBuffer (socket : Int) (b : SockBuf) : Int :=
  if socket < 0 then 0
  else
    let sendbuf := if b.sendbuf = 0 then 16384 else b.sendbuf
    if b.unsent < sendbuf.tdiv 2 then sendbuf.tdiv 2 - b.unsent else 0

/-- The cast `(uint32_t) get_receive_buffer(s)` -/
def receiveBuffer (socket : Int) (b : SockBuf) : U32 := BitVec.ofInt 32 (getReceiveBuffer socket b)

def toForward (q : List Segment) : U32 := (q.map fun g => BitVec.ofNat 32 (g.len - g.sent)).sum

def getReceiveWindow (s : Session) (b : SockBuf) : U32 :=
  let max := (0xFFFF : U32) <<< s.recvScale
  let window := receiveBuffer s.socket b
  let window := if window > max then max else window
  let window := if toForward s.forward < window then window - toForward s.forward else 0
  if window >>> s.recvScale = 0 then 0 else window

def getSendWindow (s : Session) : U32 :=
  let behind := if compareU32 s.acked s.localSeq ≤ 0 then s.localSeq - s.acked else s.acked
  if behind < s.sendWindow then s.sendWindow - behind else 0

def getMtu : Nat := 10000

/-- The MTU less the IP and TCP headers. -/
def getDefaultMss (version : Nat) : Nat :=
  if version = 4 then getMtu - 20 - 20 else getMtu - 40 - 20

theorem receiveBuffer_closed (socket : Int) (b : SockBuf) (h : socket < 0) :
    receiveBuffer socket b = 0 := by
  simp [receiveBuffer, getReceiveBuffer, h]

end PdaNetClient.Tcp
