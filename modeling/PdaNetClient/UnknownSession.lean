import PdaNetClient.SessionTable

/-!
# The reset for an unknown session

A segment without a session, and without a SYN, is answered from a temporary session: zeroed, and
filled with the fields of the segment. `write_rst` was made for sessions that stand. It sends the
sequence number alone, since the state is not LISTEN, and the version was fixed before.
-/
namespace PdaNetClient.Table

set_option autoImplicit false

/-- `struct tcp_session rst`; a `connect_sent` of 0 is TCP_CONNECT_SENT. The state 0 has no name:
`write_rst` asks whether it is LISTEN or CLOSE, and `st` stands for any that is neither. -/
def rstSession (p : TcpPacket) (st : Tcp.State) : Tcp.Session where
  time := 0
  version := 4
  mss := 0
  recvScale := 0
  sendScale := 0
  recvWindow := 0
  sendWindow := 0
  remoteSeq := p.segment.seq + BitVec.ofNat 32 p.segment.datalen + if p.segment.syn ∨
    p.segment.fin then 1 else 0
  localSeq := p.segment.ackSeq
  remoteStart := 0
  localStart := 0
  acked := 0
  lastKeepAlive := 0
  sent := 0
  received := 0
  saddr := p.saddr
  source := p.source
  daddr := p.daddr
  dest := p.dest
  state := st
  forward := []
  hostname := []
  connectSent := .sent
  socket := 0
  ev := ⟨false, false, false⟩

/-- What `write_rst` writes for the temporary session. -/
theorem writeRst_unknown (ok : Bool) (p : TcpPacket) {st : Tcp.State} (hst : st ≠ .listen) :
    (Tcp.writeRst ok (rstSession p st)).2 = [.tun st (unknownReset p) ok] := by
  have hlisten : (rstSession p st).state ≠ .listen := hst
  simp only [Tcp.writeRst, hlisten, decide_false]
  rfl

/-- The reset that a segment of no session asks for. -/
structure ResetFor (p : TcpPacket) (q : Tcp.TunPacket) : Prop where
  rst : q.rst = true
  version : q.version = p.version
  saddr : q.saddr = p.daddr
  source : q.source = p.dest
  daddr : q.daddr = p.saddr
  dest : q.dest = p.source
  numbers : if p.segment.ack then q.seq = p.segment.ackSeq
    else q.seq = 0 ∧ q.ack = true ∧
      q.ackSeq = p.segment.seq + BitVec.ofNat 32 p.segment.datalen + if p.segment.fin then 1 else 0

/-- A reset is answered by nothing, anything else by its reset. -/
def Answered (p : TcpPacket) (outs : List Out) : Prop :=
  if p.segment.rst then outs = [] else ∃ q ok, outs = [.reset q ok] ∧ ResetFor p q

theorem handleTcp_unknown (abi : Abi) (e : PacketEnv) (p : TcpPacket) (l : Loop)
    (hnone : l.table.find? (matchesTcp p) = none) (hurg : p.segment.urg = false)
    (hsyn : p.segment.syn = false) :
    handleTcp abi e p l = (l, [.reset (unknownReset p) e.tcp.tun.rst]) := by
  simp [handleTcp, hnone, hurg, hsyn]

/-- The one reset that is written answers no reset, and is right if it is the one asked for. -/
theorem answered_unknown_iff (p : TcpPacket) (ok : Bool) :
    Answered p [.reset (unknownReset p) ok] ↔
    p.segment.rst = false ∧ ResetFor p (unknownReset p) := by
  unfold Answered
  cases p.segment.rst with
  | true => simp
  | false =>
    simp only [Bool.false_eq_true, if_false, true_and]
    constructor
    · rintro ⟨q, ok', heq, hreset⟩
      obtain ⟨rfl, rfl⟩ : unknownReset p = q ∧ ok = ok' := by simpa using heq
      exact hreset
    · exact fun hreset => ⟨_, ok, rfl, hreset⟩

/-- The answer is right exactly for an IPv4 segment that acknowledges and is no reset. -/
theorem unknown_answered_iff (abi : Abi) (e : PacketEnv) (p : TcpPacket) (l : Loop)
    (hnone : l.table.find? (matchesTcp p) = none) (hurg : p.segment.urg = false)
    (hsyn : p.segment.syn = false) :
    Answered p (handleTcp abi e p l).2 ↔ p.version = 4 ∧ p.segment.ack = true ∧
    p.segment.rst = false := by
  rw [handleTcp_unknown abi e p l hnone hurg hsyn, answered_unknown_iff]
  constructor
  · rintro ⟨hrst, hreset⟩
    refine ⟨hreset.version.symm, ?_, hrst⟩
    by_contra hack
    have hnumbers := hreset.numbers
    rw [if_neg hack] at hnumbers
    simp [unknownReset] at hnumbers
  · rintro ⟨hversion, hack, hrst⟩
    refine ⟨hrst, rfl, hversion.symm, rfl, rfl, rfl, rfl, ?_⟩
    rw [if_pos hack]
    rfl

/-- A segment from the client to port 443 of the server. -/
def segmentOver (version : Nat) (segment : Tcp.Packet) : TcpPacket :=
  ⟨version, client, 40000, server 34, 443, 1400, 0, segment⟩

/-- Data for a connection that is gone. -/
theorem unknown_answered_data :
    Answered (segmentOver 4 (Tcp.plainPacket 1001 5001 [1, 2, 3]))
      (handleTcp .arm64V8a (plainEnv 7)
        (segmentOver 4 (Tcp.plainPacket 1001 5001 [1, 2, 3])) empty).2 :=
  (unknown_answered_iff .arm64V8a (plainEnv 7) _ empty rfl rfl rfl).mpr ⟨rfl, rfl, rfl⟩

/-- Data over IPv6, data without an acknowledgement, and a reset get a wrong answer. -/
theorem unknown_answered_wrong :
    let p6 := segmentOver 6 (Tcp.plainPacket 1001 5001 [1, 2, 3])
    let bare := segmentOver 4 { Tcp.plainPacket 1001 5001 [1, 2, 3] with ack := false }
    let reset := segmentOver 4 { Tcp.plainPacket 1001 5001 [] with rst := true }
    ¬ Answered p6 (handleTcp .arm64V8a (plainEnv 7) p6 empty).2 ∧
      ¬ Answered bare (handleTcp .arm64V8a (plainEnv 7) bare empty).2 ∧
      ¬ Answered reset (handleTcp .arm64V8a (plainEnv 7) reset empty).2 := by
  refine ⟨fun h => ?_, fun h => ?_, fun h => ?_⟩
  · rw [handleTcp_unknown _ _ _ _ rfl rfl rfl, answered_unknown_iff] at h
    exact absurd h.2.version (by decide)
  · rw [handleTcp_unknown _ _ _ _ rfl rfl rfl, answered_unknown_iff] at h
    exact absurd h.2.numbers (by decide)
  · rw [handleTcp_unknown _ _ _ _ rfl rfl rfl, answered_unknown_iff] at h
    exact absurd h.1 (by decide)

end PdaNetClient.Table
