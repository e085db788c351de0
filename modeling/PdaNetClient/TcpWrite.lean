import PdaNetClient.TcpSession

/-!
# Writing to tun and queueing from it

The `write_*` helpers of `tcp.c`, whose side effect on a failed write is the
state CLOSING, and `queue_tcp`. Whether tun takes a packet is decided outside.
-/
namespace PdaNetClient.Tcp

set_option autoImplicit false

/-- Whether the write to tun succeeds, for each kind of segment; one call of a
handler writes at most one segment of a kind. -/
structure TunOk where
  synAck : Bool
  ack : Bool
  data : Bool
  fin : Bool
  rst : Bool
  deriving DecidableEq, Repr

def writeTcp (s : Session) (data : Bytes) (syn ack fin rst : Bool) : TunPacket where
  version := s.version
  saddr := s.daddr
  daddr := s.saddr
  source := s.dest
  dest := s.source
  seq := s.localSeq
  ackSeq := if ack then s.remoteSeq else 0
  syn := syn
  ack := ack
  fin := fin
  rst := rst
  window := (s.recvWindow >>> s.recvScale).setWidth 16
  options := if syn then some (getDefaultMss s.version, s.recvScale) else none
  data := data

/-- The common body of `write_syn_ack`, `write_ack`, `write_data` and `write_fin_ack`. -/
def writeOrClose (p : TunPacket) (ok : Bool) (s : Session) : Session × List Out :=
  (if ok then s else { s with state := .closing }, [.tun s.state p ok])

def writeSynAck (ok : Bool) (s : Session) : Session × List Out :=
  writeOrClose (writeTcp s [] true true false false) ok s

def writeAck (ok : Bool) (s : Session) : Session × List Out :=
  writeOrClose (writeTcp s [] false true false false) ok s

def writeData (ok : Bool) (data : Bytes) (s : Session) : Session × List Out :=
  writeOrClose (writeTcp s data false true false false) ok s

def writeFinAck (ok : Bool) (s : Session) : Session × List Out :=
  writeOrClose (writeTcp s [] false true true false) ok s

/-- In LISTEN the reset acknowledges the SYN; the result of the write is ignored. -/
def writeRst (ok : Bool) (s : Session) : Session × List Out :=
  let t := if s.state = .listen then { s with remoteSeq := s.remoteSeq + 1 } else s
  ({ t with state := if s.state = .close then .close else .closing },
    [.tun s.state (writeTcp t [] false (decide (s.state = .listen)) false true) ok])

@[simp] theorem writeOrClose_ok (p : TunPacket) (s : Session) :
    writeOrClose p true s = (s, [.tun s.state p true]) := rfl

@[simp] theorem writeOrClose_fail (p : TunPacket) (s : Session) :
    writeOrClose p false s = ({ s with state := .closing }, [.tun s.state p false]) := rfl

theorem writeRst_closed (ok : Bool) (s : Session) : (writeRst ok s).1.state.closed := by
  simp only [writeRst, State.closed]
  split
  · exact .inr rfl
  · exact .inl rfl

section fields

variable (ok : Bool) (s : Session)

@[simp] theorem writeRst_forward : (writeRst ok s).1.forward = s.forward := by
  simp only [writeRst]; split <;> rfl
@[simp] theorem writeRst_connectSent : (writeRst ok s).1.connectSent = s.connectSent := by
  simp only [writeRst]; split <;> rfl
@[simp] theorem writeRst_dest : (writeRst ok s).1.dest = s.dest := by
  simp only [writeRst]; split <;> rfl
@[simp] theorem writeRst_remoteStart : (writeRst ok s).1.remoteStart = s.remoteStart := by
  simp only [writeRst]; split <;> rfl
@[simp] theorem writeRst_localSeq : (writeRst ok s).1.localSeq = s.localSeq := by
  simp only [writeRst]; split <;> rfl
@[simp] theorem writeRst_sent : (writeRst ok s).1.sent = s.sent := by
  simp only [writeRst]; split <;> rfl
@[simp] theorem writeRst_socket : (writeRst ok s).1.socket = s.socket := by
  simp only [writeRst]; split <;> rfl

end fields

def newSegment (p : Packet) : Segment := ⟨p.seq, p.psh, p.data, 0, Nat.zero_le _⟩

/-- The buffer of a queued segment is exchanged for a longer one; what was sent
of it, and its push flag, stay. -/
def Segment.replace (g : Segment) (d : Payload) (h : g.len < d.bytes.length) : Segment :=
  { g with data := d, sent_le := Nat.le_of_lt (Nat.lt_of_le_of_lt g.sent_le h) }

/-- The walk of `queue_tcp` to the first segment not before the packet. -/
def insertSegment (p : Packet) : List Segment → List Segment
  | [] => [newSegment p]
  | g :: q =>
    if compareU32 g.seq p.seq < 0 then g :: insertSegment p q
    else if compareU32 g.seq p.seq > 0 then newSegment p :: g :: q
    else if h : g.len < p.data.bytes.length then g.replace p.data h :: q
    else g :: q

def queueTcp (p : Packet) (s : Session) : Session :=
  if compareU32 p.seq s.remoteSeq < 0 then s
  else { s with forward := insertSegment p s.forward }

@[simp] theorem len_newSegment (p : Packet) : (newSegment p).len = p.datalen := rfl
@[simp] theorem seq_newSegment (p : Packet) : (newSegment p).seq = p.seq := rfl
@[simp] theorem sent_newSegment (p : Packet) : (newSegment p).sent = 0 := rfl
@[simp] theorem seq_replace (g : Segment) (d : Payload) (h : g.len < d.bytes.length) :
    (g.replace d h).seq = g.seq := rfl
@[simp] theorem sent_replace (g : Segment) (d : Payload) (h : g.len < d.bytes.length) :
    (g.replace d h).sent = g.sent := rfl
@[simp] theorem len_replace (g : Segment) (d : Payload) (h : g.len < d.bytes.length) :
    (g.replace d h).len = d.bytes.length := rfl

/-- Everything queued was queued before, or is the packet's own segment, or is a
segment of the packet's sequence number extended to the packet's data. -/
theorem mem_insertSegment {p : Packet} {q : List Segment} {x : Segment}
    (hx : x ∈ insertSegment p q) :
    x ∈ q ∨ x = newSegment p ∨
      ∃ g ∈ q, ∃ h : g.len < p.data.bytes.length, g.seq = p.seq ∧ x = g.replace p.data h := by
  induction q with
  | nil => exact .inr (.inl (by simpa [insertSegment] using hx))
  | cons g q ih =>
    unfold insertSegment at hx
    split at hx
    · rcases List.mem_cons.mp hx with rfl | hx
      · exact .inl (by simp)
      · rcases ih hx with h | h | ⟨g', hg', h⟩
        · exact .inl (by simp [h])
        · exact .inr (.inl h)
        · exact .inr (.inr ⟨g', by simp [hg'], h⟩)
    · split at hx
      · rcases List.mem_cons.mp hx with rfl | hx
        · exact .inr (.inl rfl)
        · exact .inl hx
      · rename_i hlt hgt
        have hseq : g.seq = p.seq := eq_of_compareU32 hlt hgt
        split at hx
        · rename_i hlen
          rcases List.mem_cons.mp hx with rfl | hx
          · exact .inr (.inr ⟨g, by simp, hlen, hseq, rfl⟩)
          · exact .inl (by simp [hx])
        · exact .inl hx

/-- What holds of every segment of the queue and of the packet's own holds of every segment behind
the insertion, if a segment keeps it when its data is exchanged for the packet's. -/
theorem forall_insertSegment {P : Segment → Prop} {p : Packet} {q : List Segment}
    (hq : ∀ g ∈ q, P g) (hnew : P (newSegment p))
    (hreplace : ∀ (g : Segment) (h : g.len < p.data.bytes.length), g.seq = p.seq → P g →
      P (g.replace p.data h)) :
    ∀ g ∈ insertSegment p q, P g := by
  intro x hx
  rcases mem_insertSegment hx with hx | rfl | ⟨g, hg, hlen, hseq, rfl⟩
  · exact hq x hx
  · exact hnew
  · exact hreplace g hlen hseq (hq g hg)

/-- `queue_tcp` touches the forward queue only. -/
theorem queueTcp_eq (p : Packet) (s : Session) :
    queueTcp p s = { s with forward := (queueTcp p s).forward } := by
  unfold queueTcp; split <;> rfl

theorem queueTcp_cases (p : Packet) (s : Session) :
    queueTcp p s = s ∨ queueTcp p s = { s with forward := insertSegment p s.forward } := by
  unfold queueTcp; split
  · exact .inl rfl
  · exact .inr rfl

section fields

variable (p : Packet) (s : Session)

@[simp] theorem queueTcp_state : (queueTcp p s).state = s.state := by rw [queueTcp_eq]
@[simp] theorem queueTcp_remoteSeq : (queueTcp p s).remoteSeq = s.remoteSeq := by rw [queueTcp_eq]
@[simp] theorem queueTcp_localSeq : (queueTcp p s).localSeq = s.localSeq := by rw [queueTcp_eq]
@[simp] theorem queueTcp_remoteStart : (queueTcp p s).remoteStart = s.remoteStart := by
  rw [queueTcp_eq]
@[simp] theorem queueTcp_localStart : (queueTcp p s).localStart = s.localStart := by
  rw [queueTcp_eq]
@[simp] theorem queueTcp_connectSent : (queueTcp p s).connectSent = s.connectSent := by
  rw [queueTcp_eq]
@[simp] theorem queueTcp_dest : (queueTcp p s).dest = s.dest := by rw [queueTcp_eq]
@[simp] theorem queueTcp_sent : (queueTcp p s).sent = s.sent := by rw [queueTcp_eq]
@[simp] theorem queueTcp_socket : (queueTcp p s).socket = s.socket := by rw [queueTcp_eq]
@[simp] theorem queueTcp_acked : (queueTcp p s).acked = s.acked := by rw [queueTcp_eq]

end fields

end PdaNetClient.Tcp
