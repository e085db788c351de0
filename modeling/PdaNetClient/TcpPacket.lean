import PdaNetClient.Tls
import PdaNetClient.TcpSocket

/-!
# `handle_tcp`

A segment from tun for a session that exists, and the session a SYN creates.
The order of the conditions is the source's ("Do not change the order of the
conditions").
-/
namespace PdaNetClient.Tcp

open Tls

set_option autoImplicit false

/-- The answers to the at most one `send` and the writes of one call. -/
structure PacketEnv where
  now : Int
  send : SendResult
  tun : TunOk

/-- `inet_ntoa` of the four bytes of an address in network order. -/
def inetNtoa (ip4 : Bytes) : Bytes :=
  List.intercalate (ascii ".") (ip4.map fun c => decimal c.toNat)

/-- Without `DNS_LOOKUPS` the name is the text of `daddr.ip4`, whatever the
version of the session. -/
def lookupHostname (daddr : Addr) : Bytes := inetNtoa daddr.ip4

def connectRequest (hostname : Bytes) (rport : Nat) : Bytes :=
  ascii "CONNECT " ++ hostname ++ ascii ":" ++ decimal rport ++ ascii " HTTP/1.0\r\n\r\n"

/-- The name a packet stands for: its SNI, else the destination address. -/
def packetHostname (abi : Abi) (p : Packet) (s : Session) : Bytes :=
  let sni := parseTlsHeader abi p.data.bytes []
  if sni = [] then lookupHostname s.daddr else sni

/-- The part of `handle_tcp` for ports 80 and 443: the CONNECT request is sent on
the first packet that finds it not sent. -/
def connectPhase (abi : Abi) (e : PacketEnv) (p : Packet) (s : Session) : Session × List Out :=
  let hostname := packetHostname abi p s
  let s := if hostname ≠ [] then { s with hostname := hostname } else s
  if s.connectSent = .notSent ∧ hostname ≠ [] then
    let buffer := connectRequest s.hostname s.dest
    match sockSend s.socket e.send buffer.length with
    | .fail _ =>
      let r := writeRst e.tun.rst s
      (r.1, .connect s.state buffer none :: r.2)
    | .ok n =>
      ({ s with connectSent := .sent, state := .listen }, [.connect s.state buffer (some n)])
  else (s, [])

def handleFin (e : PacketEnv) (s : Session) : Session × List Out :=
  match s.state with
  | .established =>
    if s.forward = [] then
      let r := writeAck e.tun.ack { s with remoteSeq := s.remoteSeq + 1 }
      (if e.tun.ack then { r.1 with state := .closeWait } else r.1, .remoteFin :: r.2)
    else ({ s with state := .closeWait }, [])
  | .finWait1 =>
    let r := writeAck e.tun.ack { s with remoteSeq := s.remoteSeq + 1 }
    (if e.tun.ack then { r.1 with state := .close } else r.1, .remoteFin :: r.2)
  | _ => (s, [])

def handleAck (p : Packet) (s : Session) : Session :=
  { s with
    acked := p.ackSeq
    state := match s.state with
      | .synRecv => .established
      | .lastAck => .closing
      | st => st }

/-- An acknowledgement number other than `local_seq`. -/
def handleOtherAck (e : PacketEnv) (p : Packet) (s : Session) : Session × List Out :=
  if p.ackSeq + 1 = s.localSeq then (s, [])
  else if compareU32 p.ackSeq s.localSeq < 0 then
    if compareU32 p.ackSeq s.acked ≤ 0 then (s, []) else ({ s with acked := p.ackSeq }, [])
  else writeRst e.tun.rst s

def handleFlags (e : PacketEnv) (p : Packet) (s : Session) : Session × List Out :=
  if p.rst then ({ s with state := .closing }, [])
  else if ¬ p.ack ∨ p.ackSeq = s.localSeq then
    if p.syn then (s, [])
    else if p.fin then handleFin e s
    else if p.ack then (handleAck p s, [])
    else (s, [])
  else handleOtherAck e p s

/-- "Session found", past the proxy handshake. -/
def handleSession (e : PacketEnv) (p : Packet) (s : Session) : Session × List Out :=
  if s.state.closed then writeRst e.tun.rst s
  else
    let s := { s with time := e.now, sendWindow := p.window.setWidth 32 <<< s.sendScale }
    if p.datalen = 0 then handleFlags e p s
    else if s.socket < 0 then writeRst e.tun.rst s
    else if s.state = .closeWait then writeRst e.tun.rst s
    else handleFlags e p (queueTcp p s)

def handleTcp (abi : Abi) (e : PacketEnv) (p : Packet) (s : Session) : Session × List Out :=
  if p.urg then (s, [])
  else if proxied s.dest then
    let c := connectPhase abi e p s
    if c.1.connectSent ≠ .established then (queueTcp p c.1, c.2)
    else
      let r := handleSession e p c.1
      (r.1, c.2 ++ r.2)
  else handleSession e p s

/-- What the creation of a session takes besides its SYN: the key, the decoded
options, `rand()`, the descriptor of `open_tcp_socket` and its buffers. -/
structure SynEnv where
  now : Int
  version : Nat
  saddr : Addr
  daddr : Addr
  source : Nat
  dest : Nat
  mss : Nat
  ws : Nat
  rand : U32
  socket : Nat
  sndbuf : SockBuf
  deriving DecidableEq, Repr

/-- The session registered for a SYN whose socket could be opened. Data on the SYN
is queued under the sequence number of the SYN itself. -/
def newSession (e : SynEnv) (p : Packet) : Session :=
  let s : Session :=
    { time := e.now, version := e.version, mss := e.mss, recvScale := e.ws, sendScale := e.ws
      recvWindow := 0, sendWindow := p.window.setWidth 32 <<< e.ws
      remoteSeq := p.seq, localSeq := e.rand, remoteStart := p.seq, localStart := e.rand
      acked := 0, lastKeepAlive := 0, sent := 0, received := 0
      saddr := e.saddr, source := e.source, daddr := e.daddr, dest := e.dest
      state := .listen
      forward := if p.datalen = 0 then [] else [newSegment p]
      hostname := [], connectSent := .notSent, socket := e.socket
      ev := ⟨false, true, true⟩ }
  { s with recvWindow := getReceiveWindow s e.sndbuf }

theorem newSession_forward (e : SynEnv) (p : Packet) :
    (newSession e p).forward = if p.datalen = 0 then [] else [newSegment p] := rfl

section fields

variable (e : SynEnv) (p : Packet)

@[simp] theorem newSession_state : (newSession e p).state = .listen := rfl
@[simp] theorem newSession_remoteSeq : (newSession e p).remoteSeq = p.seq := rfl
@[simp] theorem newSession_remoteStart : (newSession e p).remoteStart = p.seq := rfl
@[simp] theorem newSession_localSeq : (newSession e p).localSeq = e.rand := rfl
@[simp] theorem newSession_localStart : (newSession e p).localStart = e.rand := rfl
@[simp] theorem newSession_connectSent : (newSession e p).connectSent = .notSent := rfl
@[simp] theorem newSession_dest : (newSession e p).dest = e.dest := rfl
@[simp] theorem newSession_sent : (newSession e p).sent = 0 := rfl
@[simp] theorem newSession_socket : (newSession e p).socket = e.socket := rfl

end fields

end PdaNetClient.Tcp
