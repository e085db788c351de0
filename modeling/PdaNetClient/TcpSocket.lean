import PdaNetClient.TcpWrite

/-!
# `check_tcp_socket`

One event on the relay socket. The phases of the function are separate
definitions: the reply of the proxy or the handshake in LISTEN, and outside it
the forward loop, the window and acknowledgement, and one read.
-/
namespace PdaNetClient.Tcp

open Http

set_option autoImplicit false

/-- What the kernel and tun answer while one event is handled; `sends i` and
`after i` are the answer to the `i`-th send of the forward loop and the bytes
behind the buffer it reads. -/
structure SocketEnv where
  ev : Events
  now : Int
  sndbuf : SockBuf
  rcvbuf : SockBuf
  sends : Nat → SendResult
  after : Nat → Memory
  recv : RecvResult
  drain : List Bytes
  tun : TunOk

/-- `send` on a closed descriptor fails, and takes no more than it is offered. -/
def sockSend (socket : Int) (r : SendResult) (asked : Nat) : SendResult :=
  if socket < 0 then .fail .other
  else match r with
    | .ok n => .ok (min n asked)
    | .fail e => .fail e

def sockRecv (socket : Int) (r : RecvResult) (asked : Nat) : RecvResult :=
  if socket < 0 then .fail .other
  else match r with
    | .ok bytes => .ok (bytes.take asked)
    | .fail e => .fail e

/-- `recv` gives no more than it is asked for. -/
theorem sockRecv_length {socket : Int} {r : RecvResult} {asked : Nat} {bytes : Bytes}
    (h : sockRecv socket r asked = .ok bytes) : bytes.length ≤ asked := by
  unfold sockRecv at h
  split at h
  · cases h
  · split at h
    · injection h with h
      rw [← h, List.length_take]
      omega
    · cases h

/-- The value of `send` as a `ssize_t`. -/
def SendResult.ret : SendResult → Int
  | .ok n => n
  | .fail _ => -1

/-- The count recorded for a call. -/
def SendResult.count : SendResult → Option Nat
  | .ok n => some n
  | .fail _ => none

/-- The result of one pass of the forward loop: the session, whether data went
out (`fwd`), what `buffer_size` is reduced by, and whether the loop goes on. -/
structure Pass where
  s : Session
  fwd : Bool
  sent : Nat
  more : Bool
  outs : List Out

/-- What the pass offers to `send` for the head. -/
def patchHead (dest : Nat) (after : Memory) (data : Bytes) : Patch :=
  if dest = 80 then patchHttpUrl (memoryOf data after) data.length else .unchanged

/-- The part of the pass behind `send`; `sent` is its value after the clip to
`len`. `errno` is only looked at when it is negative. -/
def afterSend (rstOk : Bool) (s : Session) (g : Segment) (q : List Segment) (fwd : Bool)
    (sent : Int) (errno : Errno) : Pass :=
  if sent < 0 then
    if errno = .eintr ∨ errno = .eagain then ⟨s, fwd, 0, false, []⟩
    else ⟨(writeRst rstOk s).1, fwd, 0, false, (writeRst rstOk s).2⟩
  else
    let n := min sent.toNat (g.len - g.sent)
    let g' := g.advance n (Nat.min_le_right _ _)
    let t := { s with sent := s.sent + n, remoteSeq := g'.seq + BitVec.ofNat 32 g'.sent }
    if g'.len = g'.sent then ⟨{ t with forward := q }, true, n, true, []⟩
    else ⟨{ t with forward := g' :: q }, true, n, false, []⟩

/-- `if (sent > len) sent = len;` with the comparison made in `size_t`. -/
def clip (abi : Abi) (sent : Int) (len : Nat) : Int := if abi.gtSizeT sent len then len else sent

def SendResult.errno : SendResult → Errno
  | .ok _ => .other
  | .fail e => e

/-- The loop body for the head `g` of the queue. -/
def sendHead (abi : Abi) (rstOk : Bool) (res : SendResult) (after : Memory) (s : Session)
    (g : Segment) (q : List Segment) (fwd : Bool) : Pass :=
  let data := g.rest
  let patch := patchHead s.dest after data
  if patch = .overrun then ⟨s, fwd, 0, false, [.crash]⟩
  else
    let r := sockSend s.socket res (patch.apply data).length
    let p := afterSend rstOk s g q fwd (clip abi r.ret data.length) r.errno
    { p with outs := .forward s.state data patch r.count :: p.outs }

/-- The condition of the loop. -/
def canForward (s : Session) (g : Segment) (bufferSize : U32) : Prop :=
  g.seq + BitVec.ofNat 32 g.sent = s.remoteSeq ∧ BitVec.ofNat 32 (g.len - g.sent) < bufferSize

instance (s : Session) (g : Segment) (b : U32) : Decidable (canForward s g b) :=
  inferInstanceAs (Decidable (_ ∧ _))

/-- The loop; the list is the queue of the session, `i` counts the sends. -/
def forwardLoop (abi : Abi) (e : SocketEnv) :
    List Segment → Nat → U32 → Session → Bool → Session × Bool × List Out
  | [], _, _, s, fwd => (s, fwd, [])
  | g :: q, i, bufferSize, s, fwd =>
    if canForward s g bufferSize then
      let p := sendHead abi e.tun.rst (e.sends i) (e.after i) s g q fwd
      if p.more then
        let r := forwardLoop abi e q (i + 1) (bufferSize - BitVec.ofNat 32 p.sent) p.s p.fwd
        (r.1, r.2.1, p.outs ++ r.2.2)
      else (p.s, p.fwd, p.outs)
    else (s, fwd, [])

/-- "Always forward data", when the socket is writable. -/
def forwardData (abi : Abi) (e : SocketEnv) (s : Session) : Session × Bool × List Out :=
  if e.ev.out then forwardLoop abi e s.forward 0 (receiveBuffer s.socket e.sndbuf) s false
  else (s, false, [])

/-- The receive window, and the acknowledgement of what was forwarded. -/
def ackForwarded (e : SocketEnv) (fwd : Bool) (s : Session) : Session × List Out :=
  let window := getReceiveWindow s e.rcvbuf
  let prev := s.recvWindow
  let s := { s with recvWindow := window }
  if fwd ∨ (prev = 0 ∧ 0 < window) then
    let fin := fwd ∧ s.forward = [] ∧ s.state = .closeWait
    let s := if fin then { s with remoteSeq := s.remoteSeq + 1 } else s
    let r := writeAck e.tun.ack s
    (if e.tun.ack then { r.1 with time := e.now } else r.1,
      (if fin then [.remoteFin] else []) ++ r.2)
  else (s, [])

/-- End of the remote stream. -/
def handleEof (e : SocketEnv) (s : Session) : Session × List Out :=
  let r :=
    if s.forward = [] then
      let w := writeFinAck e.tun.fin s
      let t := if e.tun.fin then { w.1 with localSeq := w.1.localSeq + 1 } else w.1
      ({ t with state := match t.state with
          | .established => .finWait1
          | .closeWait => .lastAck
          | st => st }, w.2)
    else writeRst e.tun.rst s
  ({ r.1 with socket := -1 }, r.2 ++ [.close s.socket])

/-- The read of at most one segment that the client's window has room for. -/
def readSocket (e : SocketEnv) (s : Session) : Session × List Out :=
  let sendWindow := getSendWindow s
  if (s.state = .established ∨ s.state = .closeWait) ∧ e.ev.inn ∧ 0 < sendWindow then
    let s := { s with time := e.now }
    let bufferSize := min sendWindow.toNat s.mss
    match sockRecv s.socket e.recv bufferSize with
    | .fail err =>
      let r := if err ≠ .eintr ∧ err ≠ .eagain then writeRst e.tun.rst s else (s, [])
      (r.1, .recv s.state bufferSize none :: r.2)
    | .ok [] =>
      let r := handleEof e s
      (r.1, .recv s.state bufferSize (some []) :: r.2)
    | .ok bytes =>
      let s := { s with received := s.received + bytes.length }
      let r := writeData e.tun.data bytes s
      (if e.tun.data then { r.1 with localSeq := r.1.localSeq + BitVec.ofNat 32 bytes.length }
        else r.1, .recv s.state bufferSize (some bytes) :: r.2)
  else (s, [])

/-- `while (recv(s->socket, buffer, 512, 0) > 0) {}`: the chunks read and dropped,
up to the first empty or failing read. -/
def drainLoop : List Bytes → List Bytes
  | [] => []
  | c :: cs => if c = [] then [] else c.take 512 :: drainLoop cs

/-- LISTEN and readable: twelve bytes of the proxy's reply are read; whatever they
are, a session whose request was sent is established. -/
def readReply (e : SocketEnv) (s : Session) : Session × List Out :=
  match sockRecv s.socket e.recv 12 with
  | .fail _ =>
    let r := writeRst e.tun.rst s
    (r.1, .recv s.state 12 none :: r.2)
  | .ok bytes =>
    if s.connectSent = .sent then
      ({ s with connectSent := .established, state := .established },
        .recv s.state 12 (some bytes) ::
          (drainLoop e.drain).map fun c => .recv s.state 512 (some c))
    else
      let r := writeRst e.tun.rst s
      (r.1, .recv s.state 12 (some bytes) :: r.2)

/-- LISTEN and not readable: the socket is taken as connected. -/
def handshake (e : SocketEnv) (s : Session) : Session × List Out :=
  let s := { s with remoteSeq := s.remoteSeq + 1 }
  let r := writeSynAck e.tun.synAck s
  (if e.tun.synAck then
      { r.1 with time := e.now, localSeq := r.1.localSeq + 1, state := .synRecv }
    else r.1, r.2)

/-- Outside LISTEN. -/
def relay (abi : Abi) (e : SocketEnv) (s : Session) : Session × List Out :=
  let f := forwardData abi e s
  let a := ackForwarded e f.2.1 f.1
  let r := readSocket e a.1
  (r.1, f.2.2 ++ a.2 ++ r.2)

def checkTcpSocket (abi : Abi) (e : SocketEnv) (s : Session) : Session × List Out :=
  if e.ev.err then writeRst e.tun.rst { s with time := e.now }
  else if s.state = .listen then
    if e.ev.inn then readReply e s else handshake e s
  else relay abi e s

end PdaNetClient.Tcp
