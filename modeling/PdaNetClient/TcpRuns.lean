import PdaNetClient.Runs
import PdaNetClient.TcpPacket

/-!
# Runs of one TCP session

The two periodic functions of the event loop, and the machine whose inputs are
everything `handle_events` can do to one session: a segment from tun, an event on
its socket, a monitor pass and a check pass, in any order. A session that a check
pass deletes is kept here, so that runs of the program are among the runs below.
-/
namespace PdaNetClient.Tcp

open Runs

set_option autoImplicit false

structure MonitorEnv where
  ms : Int
  sndbuf : SockBuf
  epollOk : Bool
  ackOk : Bool
  deriving DecidableEq, Repr

def epollMinCheck : Int := 100

/-- The keep-alive that asks the client for a window update. -/
def keepAlive (e : MonitorEnv) (s : Session) : Session × List Out :=
  if e.ms - s.lastKeepAlive > epollMinCheck then
    let r := writeAck e.ackOk { s with lastKeepAlive := e.ms, remoteSeq := s.remoteSeq - 1 }
    ({ r.1 with remoteSeq := r.1.remoteSeq + 1 }, r.2)
  else (s, [])

/-- The events to wait for, with the return value `recheck`. -/
def monitorEvents (e : MonitorEnv) (s : Session) : Session × Bool × Events × List Out :=
  let events : Events := ⟨false, false, true⟩
  match s.state with
  | .listen =>
    if s.connectSent = .sent ∧ s.dest = 443 then (s, false, { events with inn := true }, [])
    else (s, false, { events with out := true }, [])
  | .established | .closeWait =>
    let w := decide (0 < getSendWindow s)
    let k := if w then (s, []) else keepAlive e s
    match k.1.forward with
    | [] => (k.1, !w, { events with inn := w }, k.2)
    | g :: _ =>
      let f := decide (canForward k.1 g (receiveBuffer k.1.socket e.sndbuf))
      (k.1, !w || !f, { events with inn := w, out := f }, k.2)
  | _ => (s, false, events, [])

def monitorTcpSession (e : MonitorEnv) (s : Session) : Session × Bool × List Out :=
  let m := monitorEvents e s
  let t := if m.2.2.1 ≠ m.1.ev then
      { m.1 with ev := m.2.2.1, state := if e.epollOk then m.1.state else .closing }
    else m.1
  (t, m.2.1, m.2.2.2)

structure CheckEnv where
  now : Int
  now2 : Int
  sessions : Int
  maxsessions : Int
  rstOk : Bool
  deriving DecidableEq, Repr

def tcpInitTimeout : Int := 30
def tcpIdleTimeout : Int := 3600
def tcpCloseTimeout : Int := 30
def tcpKeepTimeout : Int := 300

def getTcpTimeout (s : Session) (sessions maxsessions : Int) : Int :=
  let timeout :=
    match s.state with
    | .listen | .synRecv => tcpInitTimeout
    | .established => tcpIdleTimeout
    | _ => tcpCloseTimeout
  let scale := 100 - (sessions * 100).tdiv maxsessions
  (timeout * scale).tdiv 100

/-- The idle timeout of `check_tcp_session`. -/
def expireSession (e : CheckEnv) (s : Session) : Session × List Out :=
  if ¬ s.state.closed ∧ s.time + getTcpTimeout s e.sessions e.maxsessions < e.now then
    if s.state = .listen then ({ s with state := .closing }, []) else writeRst e.rstOk s
  else (s, [])

/-- "eof closes socket" -/
def closeSession (e : CheckEnv) (s : Session) : Session × List Out :=
  if s.state = .closing then
    ({ s with socket := if 0 ≤ s.socket then -1 else s.socket, time := e.now2, state := .close },
      if 0 ≤ s.socket then [.close s.socket] else [])
  else (s, [])

/-- The Boolean says that the session is to be deleted. -/
def checkTcpSession (e : CheckEnv) (s : Session) : Session × Bool × List Out :=
  let x := expireSession e s
  let c := closeSession e x.1
  let t := if c.1.state.closed then { c.1 with sent := 0, received := 0 } else c.1
  (t, decide (t.state = .close ∧ t.time + tcpKeepTimeout < e.now), x.2 ++ c.2)

inductive Input where
  | packet (e : PacketEnv) (p : Packet)
  | socket (e : SocketEnv)
  | monitor (e : MonitorEnv)
  | check (e : CheckEnv)

/-- The event loop monitors a session while its socket is open. -/
def step (abi : Abi) : Machine Session Input Out
  | s, .packet e p => handleTcp abi e p s
  | s, .socket e => checkTcpSocket abi e s
  | s, .monitor e =>
    if 0 ≤ s.socket then ((monitorTcpSession e s).1, (monitorTcpSession e s).2.2) else (s, [])
  | s, .check e => ((checkTcpSession e s).1, (checkTcpSession e s).2.2)

/-! ## Fixed environments

The runs that show where a property fails start from these: everything works, the
client has chosen 1000 and the program 5000 as initial sequence number. -/

def Payload.of (b : Bytes) : Payload := ⟨b.take 65535, by rw [List.length_take]; omega⟩

def Addr.ofIp4 (a b c d : UInt8) : Addr := ⟨[a, b, c, d, 0, 0, 0, 0, 0, 0, 0, 0, 0, 0, 0, 0], rfl⟩

def allWritten : TunOk := ⟨true, true, true, true, true⟩

def plainSyn (dest : Nat) : SynEnv where
  now := 0
  version := 4
  saddr := .ofIp4 10 1 10 1
  daddr := .ofIp4 93 184 216 34
  source := 40000
  dest := dest
  mss := 1400
  ws := 0
  rand := 5000
  socket := 7
  sndbuf := ⟨65536, 0⟩

def plainPacket (seq ackSeq : U32) (data : Bytes) : Packet where
  seq := seq
  ackSeq := ackSeq
  urg := false
  ack := true
  psh := true
  rst := false
  syn := false
  fin := false
  window := 65535
  data := .of data

def synPacket (data : Bytes) : Packet := { plainPacket 1000 0 data with ack := false, syn := true }

def plainEnv : PacketEnv := ⟨0, .ok 65536, allWritten⟩

/-- The socket is writable, takes everything and has nothing to read. -/
def writable : SocketEnv where
  ev := ⟨false, true, false⟩
  now := 0
  sndbuf := ⟨65536, 0⟩
  rcvbuf := ⟨65536, 0⟩
  sends := fun _ => .ok 65536
  after := fun _ _ => 0
  recv := .fail .eagain
  drain := []
  tun := allWritten

def readable (bytes : Bytes) : SocketEnv :=
  { writable with ev := ⟨true, false, false⟩, recv := .ok bytes }

def plainMonitor : MonitorEnv := ⟨0, ⟨65536, 0⟩, true, true⟩

def failed : SocketEnv := { writable with ev := ⟨false, false, true⟩ }

end PdaNetClient.Tcp
