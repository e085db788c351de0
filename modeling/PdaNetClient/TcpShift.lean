import PdaNetClient.TcpSteps

/-!
# Shifted sequence numbers

A session and a packet whose sequence numbers are moved by constants. Everything
`handle_tcp` computes from the numbers moves with them, but the outcomes of
`compare_u32`, which compares two numbers as signed integers: the distance of two
numbers survives a shift, the sign boundary between them does not.
-/
namespace PdaNetClient.Tcp

open Runs

set_option autoImplicit false

/-! ## The shift -/

def Segment.shift (k : U32) (g : Segment) : Segment := { g with seq := g.seq + k }

/-- The client's numbers move by `k`, the program's own by `l`. -/
def Session.shift (k l : U32) (s : Session) : Session :=
  { s with
    remoteSeq := s.remoteSeq + k
    remoteStart := s.remoteStart + k
    forward := s.forward.map (Segment.shift k)
    localSeq := s.localSeq + l
    localStart := s.localStart + l
    acked := s.acked + l }

def Packet.shift (k l : U32) (p : Packet) : Packet :=
  { p with seq := p.seq + k, ackSeq := p.ackSeq + l }

def TunPacket.shift (k l : U32) (p : TunPacket) : TunPacket :=
  { p with seq := p.seq + l, ackSeq := if p.ack then p.ackSeq + k else p.ackSeq }

def Out.shift (k l : U32) : Out → Out
  | .tun st p ok => .tun st (p.shift k l) ok
  | o => o

def shiftResult (k l : U32) (r : Session × List Out) : Session × List Out :=
  (r.1.shift k l, r.2.map (Out.shift k l))

/-! ## The property and the condition -/

/-- The session that `handle_tcp` hands to `queue_tcp`, up to fields it does not read. -/
def queueing (abi : Abi) (e : PacketEnv) (p : Packet) (s : Session) : Session :=
  if proxied s.dest then (connectPhase abi e p s).1 else s

/-- The shifted packet on the shifted session does what the packet does, shifted. -/
structure MovesAlong (abi : Abi) (e : PacketEnv) (k l : U32) (p : Packet) (s : Session) : Prop where
  handle : handleTcp abi e (p.shift k l) (s.shift k l) = shiftResult k l (handleTcp abi e p s)
  accepts :
    compareU32 (p.shift k l).seq (queueing abi e (p.shift k l) (s.shift k l)).remoteSeq < 0 ↔
    compareU32 p.seq (queueing abi e p s).remoteSeq < 0
  queue : queueTcp (p.shift k l) (queueing abi e (p.shift k l) (s.shift k l)) =
    (queueTcp p (queueing abi e p s)).shift k l
  window : getSendWindow (s.shift k l) = getSendWindow s

/-- Two numbers keep their order. -/
def KeepsOrder (k a b : U32) : Prop := compareU32 (a + k) (b + k) < 0 ↔ compareU32 a b < 0

instance (k a b : U32) : Decidable (KeepsOrder k a b) := inferInstanceAs (Decidable (_ ↔ _))

/-- The walk of `queue_tcp` stops at the same segment. -/
def KeepsPlace (k seq : U32) : List Segment → Prop
  | [] => True
  | g :: q => KeepsOrder k g.seq seq ∧ (compareU32 g.seq seq < 0 → KeepsPlace k seq q)

/-- An ACK that an open session handles as such. -/
structure Acks (p : Packet) (s : Session) : Prop where
  urg : p.urg = false
  proxy : proxied s.dest → s.connectSent = .established
  opened : ¬ s.state.closed
  data : p.datalen = 0 ∨ 0 ≤ s.socket ∧ s.state ≠ .closeWait
  rst : p.rst = false
  ack : p.ack = true

/-- Its number is compared. -/
structure ComparesAck (p : Packet) (s : Session) : Prop extends Acks p s where
  ne : p.ackSeq ≠ s.localSeq
  ne' : p.ackSeq + 1 ≠ s.localSeq

/-- `acked`, the number of the ACK and `local_seq` follow one another. -/
def InWindow (p : Packet) (s : Session) : Prop :=
  (p.ackSeq - s.acked).toNat ≤ (s.localSeq - s.acked).toNat ∧ (s.localSeq - s.acked).toNat < 2 ^ 30

instance (p : Packet) (s : Session) : Decidable (InWindow p s) :=
  inferInstanceAs (Decidable (_ ∧ _))

/-- The sign boundary is passed between the number of the ACK and `local_seq`. -/
def PassesSign (p : Packet) (s : Session) : Prop :=
  p.ackSeq.toNat < 2 ^ 31 ∧ 2 ^ 31 ≤ s.localSeq.toNat

instance (p : Packet) (s : Session) : Decidable (PassesSign p s) :=
  inferInstanceAs (Decidable (_ ∧ _))

def Out.resets : Out → Prop
  | .tun _ p _ => p.rst = true
  | _ => False

instance : (o : Out) → Decidable o.resets
  | .tun _ _ _ | .connect _ _ _ | .forward _ _ _ _ | .recv _ _ _ | .remoteFin | .close
      _ | .crash => by
    unfold Out.resets
    infer_instance

/-- What `get_send_window` takes for the unacknowledged bytes. -/
def behind (s : Session) : U32 :=
  if compareU32 s.acked s.localSeq ≤ 0 then s.localSeq - s.acked else s.acked

/-- `acked` is not ahead of `local_seq`, or the window is too small to show it. -/
def ShowsWindow (l : U32) (s : Session) : Prop :=
  compareU32 s.acked s.localSeq ≤ 0 ∧ compareU32 (s.acked + l) (s.localSeq + l) ≤ 0 ∨
    min (behind (s.shift 0 l)).toNat s.sendWindow.toNat = min (behind s).toNat s.sendWindow.toNat

/-- The packet's acknowledgement number keeps its order with the two it is compared with. -/
def KeepsAck (l : U32) (p : Packet) (s : Session) : Prop :=
  KeepsOrder l p.ackSeq s.localSeq ∧
    (compareU32 p.ackSeq s.localSeq < 0 → KeepsOrder l p.ackSeq s.acked)

/-- The number the packet's is compared with: a refused CONNECT request counts the SYN. -/
def expectedSeq (abi : Abi) (e : PacketEnv) (p : Packet) (s : Session) : U32 :=
  if proxied s.dest ∧ s.connectSent = .notSent ∧ s.state = .listen ∧
      (sockSend s.socket e.send (connectRequest (packetHostname abi p s) s.dest).length).count =
        none then
    s.remoteSeq + 1
  else s.remoteSeq

/-- Each comparison has the outcome it had. -/
structure SameOrder (abi : Abi) (e : PacketEnv) (k l : U32) (p : Packet) (s : Session) : Prop where
  accepts : KeepsOrder k p.seq (expectedSeq abi e p s)
  place : ¬ compareU32 p.seq (expectedSeq abi e p s) < 0 → KeepsPlace k p.seq s.forward
  ack : ComparesAck p s → KeepsAck l p s
  window : ShowsWindow l s

/-! ## Comparisons -/

/-- Numbers that keep their order in one direction do in the other. -/
theorem KeepsOrder.pos {k a b : U32} (h : KeepsOrder k a b) :
    0 < compareU32 (a + k) (b + k) ↔ 0 < compareU32 a b := by
  unfold KeepsOrder at h
  rw [compareU32_pos, compareU32_pos, h, Ne, Ne, add_left_inj]

theorem KeepsOrder.le {k a b : U32} (h : KeepsOrder k a b) :
    compareU32 (a + k) (b + k) ≤ 0 ↔ compareU32 a b ≤ 0 := by
  have := h.pos
  omega

theorem keepsOrder_of_le {k a b : U32} (h : compareU32 (a + k) (b + k) ≤ 0 ↔ compareU32 a b ≤ 0) :
    KeepsOrder k a b := by
  by_cases hab : a = b
  · simp [KeepsOrder, hab]
  · have h1 : compareU32 a b ≠ 0 := fun h0 => hab (compareU32_eq_zero.mp h0)
    have h2 : compareU32 (a + k) (b + k) ≠ 0 :=
      fun h0 => hab (add_left_injective k (compareU32_eq_zero.mp h0))
    unfold KeepsOrder
    omega

/-! ## The queue -/

section queue

variable (k l : U32)

@[simp] theorem newSegment_shift (p : Packet) : newSegment (p.shift k l) = (newSegment p).shift k :=
  rfl

theorem insertSegment_shift_iff (p : Packet) (q : List Segment) :
    insertSegment (p.shift k l) (q.map (Segment.shift k)) =
      (insertSegment p q).map (Segment.shift k) ↔
      KeepsPlace k p.seq q := by
  induction q with
  | nil => simp [insertSegment, KeepsPlace]
  | cons g q ih =>
    have hseq : (g.shift k).seq = g.seq + k := rfl
    have hp : (p.shift k l).seq = p.seq + k := rfl
    simp only [List.map_cons, insertSegment, KeepsPlace, hseq, hp]
    by_cases hkeep : KeepsOrder k g.seq p.seq
    · have hpos := hkeep.pos
      by_cases hlt : compareU32 g.seq p.seq < 0
      · rw [if_pos (hkeep.mpr hlt), if_pos hlt]
        simpa [hkeep, hlt] using ih
      · rw [if_neg fun h => hlt (hkeep.mp h), if_neg hlt]
        simp only [hkeep, hlt, false_imp_iff, and_true, iff_true]
        by_cases hgt : 0 < compareU32 g.seq p.seq
        · rw [if_pos (hpos.mpr hgt), if_pos hgt]
          rfl
        · rw [if_neg fun h => hgt (hpos.mp h), if_neg hgt]
          by_cases hlen : g.len < p.data.bytes.length
          · rw [dif_pos hlen]
            exact dif_pos hlen
          · rw [dif_neg hlen]
            exact dif_neg hlen
    · -- one walk passes over the segment, the other stops in front of it
      have hne : g.seq ≠ p.seq := by
        rintro heq
        simp [KeepsOrder, heq] at hkeep
      have hne' : g.seq + k ≠ p.seq + k := fun h => hne (add_left_injective k h)
      simp only [hkeep, false_and, iff_false]
      unfold KeepsOrder at hkeep
      by_cases hlt : compareU32 g.seq p.seq < 0
      · have hlt' : ¬ compareU32 (g.seq + k) (p.seq + k) < 0 :=
          fun h => hkeep ⟨fun _ => hlt, fun _ => h⟩
        rw [if_neg hlt', if_pos (compareU32_pos.mpr ⟨hne', hlt'⟩), if_pos hlt]
        intro h
        exact hne' (congrArg Segment.seq (List.cons.inj h).1).symm
      · have hlt' : compareU32 (g.seq + k) (p.seq + k) < 0 := by
          by_contra h
          exact hkeep ⟨fun h' => absurd h' h, fun h' => absurd h' hlt⟩
        rw [if_pos hlt', if_neg hlt, if_pos (compareU32_pos.mpr ⟨hne, hlt⟩)]
        intro h
        exact hne' (congrArg Segment.seq (List.cons.inj h).1)

theorem queueTcp_shift (p : Packet) (s : Session) (haccepts : KeepsOrder k p.seq s.remoteSeq)
    (hplace : ¬ compareU32 p.seq s.remoteSeq < 0 → KeepsPlace k p.seq s.forward) :
    queueTcp (p.shift k l) (s.shift k l) = (queueTcp p s).shift k l := by
  have hcmp : compareU32 (p.shift k l).seq (s.shift k l).remoteSeq < 0 ↔
    compareU32 p.seq s.remoteSeq < 0 := haccepts
  unfold queueTcp
  by_cases hold : compareU32 p.seq s.remoteSeq < 0
  · rw [if_pos (hcmp.mpr hold), if_pos hold]
  · rw [if_neg fun h => hold (hcmp.mp h), if_neg hold]
    have hinsert := (insertSegment_shift_iff k l p s.forward).mpr (hplace hold)
    simp only [Session.shift, hinsert]

theorem place_of_queueTcp_shift {p : Packet} {s : Session}
    (haccepts : KeepsOrder k p.seq s.remoteSeq)
    (h : queueTcp (p.shift k l) (s.shift k l) = (queueTcp p s).shift k l)
    (hnew : ¬ compareU32 p.seq s.remoteSeq < 0) : KeepsPlace k p.seq s.forward := by
  have hnew' : ¬ compareU32 (p.shift k l).seq (s.shift k l).remoteSeq < 0 :=
    fun hlt => hnew (haccepts.mp hlt)
  rw [queueTcp, if_neg hnew', queueTcp, if_neg hnew] at h
  exact (insertSegment_shift_iff k l p s.forward).mp (congrArg Session.forward h)

end queue

/-! ## The window -/

theorem toNat_window (w a : U32) :
    (if a < w then w - a else 0).toNat = w.toNat - min a.toNat w.toNat := by
  split
  · rename_i h
    have hlt := BitVec.lt_def.mp h
    rw [BitVec.toNat_sub_of_le (BitVec.le_of_lt h)]
    omega
  · rename_i h
    have hle : w.toNat ≤ a.toNat := Nat.le_of_not_lt fun hlt => h (BitVec.lt_def.mpr hlt)
    simp [hle]

theorem window_eq_iff (w a b : U32) :
    (if a < w then w - a else 0) = (if b < w then w - b else 0) ↔
    min a.toNat w.toNat = min b.toNat w.toNat := by
  rw [BitVec.toNat_eq, toNat_window, toNat_window]
  omega

theorem getSendWindow_shift_iff (k l : U32) (s : Session) :
    getSendWindow (s.shift k l) = getSendWindow s ↔ ShowsWindow l s := by
  have hform : getSendWindow (s.shift k l) = getSendWindow s ↔
      min (behind (s.shift 0 l)).toNat s.sendWindow.toNat =
        min (behind s).toNat s.sendWindow.toNat :=
    window_eq_iff s.sendWindow (behind (s.shift k l)) (behind s)
  rw [hform, ShowsWindow]
  refine ⟨.inr, fun h => h.elim (fun ⟨hle, hle'⟩ => ?_) id⟩
  have hdiff : (s.localSeq + l) - (s.acked + l) = s.localSeq - s.acked :=
    add_sub_add_right_eq_sub _ _ _
  have hbehind : behind (s.shift 0 l) = behind s := by
    simp only [behind, Session.shift, if_pos hle, if_pos hle', hdiff]
  rw [hbehind]

/-! ## `handle_tcp` -/

section handle

variable (k l : U32) (e : PacketEnv)

theorem writeRst_shift (ok : Bool) (s : Session) :
    writeRst ok (s.shift k l) = shiftResult k l (writeRst ok s) := by
  have hcomm : s.remoteSeq + k + 1#32 = s.remoteSeq + 1#32 + k := add_right_comm _ _ _
  by_cases hst : s.state = .listen <;> by_cases hc : s.state = .close <;>
    simp [writeRst, writeTcp, Session.shift, shiftResult, Out.shift, TunPacket.shift,
      hst, hc, hcomm]

theorem handleFin_shift (s : Session) :
    handleFin e (s.shift k l) = shiftResult k l (handleFin e s) := by
  have hcomm : s.remoteSeq + k + 1#32 = s.remoteSeq + 1#32 + k := add_right_comm _ _ _
  cases hst : s.state with
  | established =>
    by_cases hq : s.forward = [] <;> cases hok : e.tun.ack <;>
      simp [handleFin, writeAck, writeTcp, Session.shift, shiftResult, Out.shift, TunPacket.shift,
        hst, hq, hok, hcomm]
  | finWait1 =>
    cases hok : e.tun.ack <;>
      simp [handleFin, writeAck, writeTcp, Session.shift, shiftResult, Out.shift, TunPacket.shift,
        hst, hok, hcomm]
  | _ => simp [handleFin, Session.shift, shiftResult, hst]

theorem handleOtherAck_shift (p : Packet) (s : Session)
    (h : p.ackSeq + 1 ≠ s.localSeq → KeepsAck l p s) :
    handleOtherAck e (p.shift k l) (s.shift k l) = shiftResult k l (handleOtherAck e p s) := by
  have hlast : (p.shift k l).ackSeq + 1 = (s.shift k l).localSeq ↔ p.ackSeq + 1 = s.localSeq := by
    simp only [Packet.shift, Session.shift]
    rw [add_right_comm, add_left_inj]
  unfold handleOtherAck
  by_cases hne : p.ackSeq + 1 = s.localSeq
  · rw [if_pos hne, if_pos (hlast.mpr hne)]
    rfl
  · obtain ⟨hkeep, hkeep'⟩ := h hne
    rw [if_neg hne, if_neg (hlast.not.mpr hne)]
    show (if compareU32 (p.ackSeq + l) (s.localSeq + l) < 0 then
      if compareU32 (p.ackSeq + l) (s.acked + l) ≤ 0 then _ else _ else _) = _
    by_cases hlt : compareU32 p.ackSeq s.localSeq < 0
    · rw [if_pos (hkeep.mpr hlt), if_pos hlt]
      by_cases hle : compareU32 p.ackSeq s.acked ≤ 0
      · rw [if_pos ((hkeep' hlt).le.mpr hle), if_pos hle]
        rfl
      · rw [if_neg fun h => hle ((hkeep' hlt).le.mp h), if_neg hle]
        rfl
    · rw [if_neg fun h => hlt (hkeep.mp h), if_neg hlt]
      exact writeRst_shift k l _ s

/-- A reset shows in what is written, an accepted number in `acked`. -/
theorem keepsAck_of_result (p : Packet) (s t : Session) (hlocal : t.localSeq = s.localSeq + l)
    (hacked : t.acked = s.acked + l) (hne : p.ackSeq + 1 ≠ s.localSeq)
    (houts : (handleOtherAck e (p.shift k l) t).2.length = (handleOtherAck e p s).2.length)
    (hres : (handleOtherAck e (p.shift k l) t).1.acked = (handleOtherAck e p s).1.acked + l) :
    KeepsAck l p s := by
  have hack : (p.shift k l).ackSeq = p.ackSeq + l := rfl
  have hne' : p.ackSeq + l + 1 ≠ s.localSeq + l := by
    rw [add_right_comm, Ne, add_left_inj]
    exact hne
  unfold handleOtherAck at houts hres
  rw [hack, hlocal, hacked, if_neg hne', if_neg hne] at houts hres
  have hkeep : KeepsOrder l p.ackSeq s.localSeq := by
    unfold KeepsOrder
    by_cases hlt : compareU32 p.ackSeq s.localSeq < 0
    · refine ⟨fun _ => hlt, fun _ => ?_⟩
      by_contra hlt'
      rw [if_neg hlt', if_pos hlt] at houts
      split at houts <;> simp [writeRst] at houts
    · refine ⟨fun hlt' => ?_, fun h => absurd h hlt⟩
      rw [if_pos hlt', if_neg hlt] at houts
      split at houts <;> simp [writeRst] at houts
  refine ⟨hkeep, fun hlt => ?_⟩
  rw [if_pos (hkeep.mpr hlt), if_pos hlt] at hres
  by_cases heq : p.ackSeq = s.acked
  · simp [KeepsOrder, heq]
  · have hdiff : s.acked + l ≠ p.ackSeq + l := fun h => heq (add_left_injective l h).symm
    refine keepsOrder_of_le ?_
    by_cases hle : compareU32 p.ackSeq s.acked ≤ 0
    · refine ⟨fun _ => hle, fun _ => ?_⟩
      by_contra hle'
      rw [if_neg hle', if_pos hle] at hres
      exact hdiff hres.symm
    · refine ⟨fun hle' => ?_, fun h => absurd h hle⟩
      rw [if_pos hle', if_neg hle] at hres
      exact absurd (hacked.symm.trans hres) hdiff

theorem handleFlags_shift (p : Packet) (s : Session)
    (hack : p.rst = false → p.ack = true → p.ackSeq ≠ s.localSeq → p.ackSeq + 1 ≠ s.localSeq →
      KeepsAck l p s) :
    handleFlags e (p.shift k l) (s.shift k l) = shiftResult k l (handleFlags e p s) := by
  have hguard : (¬ (p.shift k l).ack = true ∨ (p.shift k l).ackSeq = (s.shift k l).localSeq) ↔
      (¬ p.ack = true ∨ p.ackSeq = s.localSeq) := or_congr Iff.rfl (add_left_inj l)
  unfold handleFlags
  by_cases hrst : p.rst = true
  · rw [if_pos hrst, if_pos (show (p.shift k l).rst = true from hrst)]
    rfl
  · rw [if_neg hrst, if_neg (show ¬ (p.shift k l).rst = true from hrst)]
    by_cases hsame : ¬ p.ack = true ∨ p.ackSeq = s.localSeq
    · rw [if_pos hsame, if_pos (hguard.mpr hsame)]
      show (if p.syn = true then _ else if p.fin = true then _ else if p.ack = true then _ else _) =
        _
      split
      · rfl
      · split
        · exact handleFin_shift k l e s
        · split <;> rfl
    · rw [if_neg hsame, if_neg (hguard.not.mpr hsame)]
      rw [not_or, not_not] at hsame
      exact handleOtherAck_shift k l e p s (hack (by simpa using hrst) hsame.1 hsame.2)

theorem handleSession_shift (p : Packet) (s : Session) (haccepts : KeepsOrder k p.seq s.remoteSeq)
    (hplace : ¬ compareU32 p.seq s.remoteSeq < 0 → KeepsPlace k p.seq s.forward)
    (hack : ¬ s.state.closed → (p.datalen = 0 ∨ 0 ≤ s.socket ∧ s.state ≠ .closeWait) → p.rst =
      false → p.ack = true → p.ackSeq ≠ s.localSeq → p.ackSeq + 1 ≠ s.localSeq → KeepsAck l p s) :
    handleSession e (p.shift k l) (s.shift k l) = shiftResult k l (handleSession e p s) := by
  unfold handleSession
  by_cases hclosed : s.state.closed
  · rw [if_pos hclosed, if_pos (show (s.shift k l).state.closed from hclosed)]
    exact writeRst_shift k l _ s
  · rw [if_neg hclosed, if_neg (show ¬ (s.shift k l).state.closed from hclosed)]
    show (if p.datalen = 0 then _ else if s.socket < 0 then _ else if s.state =
      .closeWait then _ else _) = _
    simp only
    by_cases hlen : p.datalen = 0
    · rw [if_pos hlen, if_pos hlen]
      exact handleFlags_shift k l e p
        { s with time := e.now, sendWindow := p.window.setWidth 32 <<< s.sendScale }
        (hack hclosed (.inl hlen))
    · rw [if_neg hlen, if_neg hlen]
      by_cases hsock : s.socket < 0
      · rw [if_pos hsock, if_pos hsock]
        exact writeRst_shift k l _
          { s with time := e.now, sendWindow := p.window.setWidth 32 <<< s.sendScale }
      · rw [if_neg hsock, if_neg hsock]
        by_cases hst : s.state = .closeWait
        · rw [if_pos hst, if_pos hst]
          exact writeRst_shift k l _
            { s with time := e.now, sendWindow := p.window.setWidth 32 <<< s.sendScale }
        · rw [if_neg hst, if_neg hst]
          have hqueue := queueTcp_shift k l p
            { s with time := e.now, sendWindow := p.window.setWidth 32 <<< s.sendScale }
              haccepts hplace
          refine Eq.trans (congrArg (handleFlags e (p.shift k l)) hqueue) ?_
          refine handleFlags_shift k l e p _ ?_
          simpa [KeepsAck] using hack hclosed (.inr ⟨by omega, hst⟩)

theorem packetHostname_shift (abi : Abi) (p : Packet) (s : Session) :
    packetHostname abi (p.shift k l) (s.shift k l) = packetHostname abi p s := rfl

theorem connectPhase_shift (abi : Abi) (p : Packet) (s : Session) :
    connectPhase abi e (p.shift k l) (s.shift k l) = shiftResult k l (connectPhase abi e p s) := by
  have hne := packetHostname_ne_nil abi p s
  by_cases hsent : s.connectSent = .notSent
  · have hsent' : (s.shift k l).connectSent = .notSent := hsent
    cases hr : sockSend s.socket e.send (connectRequest (packetHostname abi p s) s.dest).length with
    | fail err =>
      have hr' : sockSend (s.shift k l).socket e.send
        (connectRequest (packetHostname abi p s) (s.shift k l).dest).length = .fail err := hr
      have hrst := writeRst_shift k l e.tun.rst { s with hostname := packetHostname abi p s }
      simp only [connectPhase, packetHostname_shift, hsent, hsent', ne_eq, hne, not_false_eq_true,
        and_self, if_true, hr, hr', shiftResult, List.map_cons] at hrst ⊢
      exact congrArg (fun r =>
        (r.1, .connect s.state (connectRequest (packetHostname abi p s) s.dest) none :: r.2)) hrst
    | ok n =>
      have hr' : sockSend (s.shift k l).socket e.send
        (connectRequest (packetHostname abi p s) (s.shift k l).dest).length = .ok n := hr
      simp only [connectPhase, packetHostname_shift, hsent, hsent', ne_eq, hne, not_false_eq_true,
        and_self, if_true, hr, hr']
      rfl
  · have hsent' : ¬ (s.shift k l).connectSent = .notSent := hsent
    simp [connectPhase, packetHostname_shift, hne, hsent, hsent', shiftResult]
    rfl

theorem queueing_shift (abi : Abi) (p : Packet) (s : Session) :
    queueing abi e (p.shift k l) (s.shift k l) = (queueing abi e p s).shift k l := by
  unfold queueing
  rw [connectPhase_shift]
  show (if proxied s.dest then _ else _) = _
  split <;> rfl

theorem queueing_seq (abi : Abi) (p : Packet) (s : Session) :
    (queueing abi e p s).remoteSeq = expectedSeq abi e p s := by
  unfold queueing expectedSeq
  by_cases hport : proxied s.dest
  · rw [if_pos hport]
    refine connectPhase_cases abi e p s ?_ ?_ ?_
    · rintro t rfl hsent
      rw [if_neg fun h => hsent h.2.1]
    · rintro t rfl hsent hfail
      by_cases hst : s.state = .listen
      · rw [if_pos ⟨hport, hsent, hst, hfail⟩]
        simp [writeRst, hst]
      · rw [if_neg fun h => hst h.2.2.1]
        simp [writeRst, hst]
    · rintro t n rfl hsent hn
      rw [if_neg fun h => ?_]
      simp [hn, SendResult.count] at h
  · rw [if_neg hport, if_neg fun h => hport h.1]

theorem queueing_forward (abi : Abi) (p : Packet) (s : Session) :
    (queueing abi e p s).forward = s.forward := by
  unfold queueing
  split
  · refine connectPhase_cases abi e p s ?_ ?_ ?_
    · rintro t rfl _
      rfl
    · rintro t rfl _ _
      exact writeRst_forward e.tun.rst { s with hostname := packetHostname abi p s }
    · rintro t n rfl _ _
      rfl
  · rfl

/-- Past the proxy handshake only the name is written. -/
theorem connectPhase_established (abi : Abi) (p : Packet) (s : Session)
    (h : (connectPhase abi e p s).1.connectSent = .established) :
    connectPhase abi e p s = ({ s with hostname := packetHostname abi p s }, []) ∧
      s.connectSent = .established := by
  revert h
  refine connectPhase_cases abi e p s ?_ ?_ ?_
  · rintro t rfl _ h
    exact ⟨rfl, h⟩
  · rintro t rfl hsent _ h
    simp [hsent] at h
  · rintro t n rfl _ _ h
    simp at h

theorem handleTcp_shift (abi : Abi) (p : Packet) (s : Session)
    (haccepts : KeepsOrder k p.seq (expectedSeq abi e p s))
    (hplace : ¬ compareU32 p.seq (expectedSeq abi e p s) < 0 → KeepsPlace k p.seq s.forward)
    (hack : ComparesAck p s → KeepsAck l p s) :
    handleTcp abi e (p.shift k l) (s.shift k l) = shiftResult k l (handleTcp abi e p s) := by
  have hseq := queueing_seq e abi p s
  have hforward := queueing_forward e abi p s
  have hconn := connectPhase_shift k l e abi p s
  unfold queueing at hseq hforward
  unfold handleTcp
  by_cases hurg : p.urg = true
  · rw [if_pos hurg, if_pos (show (p.shift k l).urg = true from hurg)]
    rfl
  · rw [if_neg hurg, if_neg (show ¬ (p.shift k l).urg = true from hurg)]
    by_cases hport : proxied s.dest
    · rw [if_pos hport] at hseq hforward
      have hsame : (shiftResult k l (connectPhase abi e p s)).1.connectSent =
        (connectPhase abi e p s).1.connectSent := rfl
      rw [if_pos hport, if_pos (show proxied (s.shift k l).dest from hport), hconn]
      simp only [hsame]
      by_cases hsent : (connectPhase abi e p s).1.connectSent = .established
      · rw [if_neg (not_not.mpr hsent), if_neg (not_not.mpr hsent)]
        obtain ⟨heq, hest⟩ := connectPhase_established e abi p s hsent
        have hsession := handleSession_shift k l e p (connectPhase abi e p s).1 (hseq ▸ haccepts)
          (by rwa [hseq, hforward]) (by
            rw [heq]
            exact fun h1 h2 h3 h4 h5 h6 =>
              hack ⟨⟨by simpa using hurg, fun _ => hest, h1, h2, h3, h4⟩, h5, h6⟩)
        have hpair :=
          congrArg (fun r => (r.1, (connectPhase abi e p s).2.map (Out.shift k l) ++ r.2)) hsession
        simpa [shiftResult] using hpair
      · rw [if_pos hsent, if_pos hsent]
        have hqueue := queueTcp_shift k l p (connectPhase abi e p s).1 (hseq ▸ haccepts)
          (by rwa [hseq, hforward])
        exact congrArg (fun t => (t, (connectPhase abi e p s).2.map (Out.shift k l))) hqueue
    · rw [if_neg hport] at hseq hforward
      rw [if_neg hport, if_neg (show ¬ proxied (s.shift k l).dest from hport)]
      rw [← hseq] at haccepts hplace
      exact handleSession_shift k l e p s haccepts hplace fun h1 h2 h3 h4 h5 h6 =>
        hack ⟨⟨by simpa using hurg, fun h => absurd h hport, h1, h2, h3, h4⟩, h5, h6⟩

/-- An ACK gets to its flags with the program's own numbers unchanged. -/
theorem handleTcp_of_acks (abi : Abi) {p : Packet} {s : Session} (h : Acks p s) :
    ∃ t, t.localSeq = s.localSeq ∧ t.acked = s.acked ∧ handleTcp abi e p s = handleFlags e p t := by
  have hdata : p.datalen ≠ 0 → 0 ≤ s.socket ∧ s.state ≠ .closeWait :=
    fun hlen => h.data.resolve_left hlen
  refine handleTcp_cases abi e p s ?_ ?_ ?_ ?_ ?_
  · intro hurg
    simp [h.urg] at hurg
  · rintro t host rfl _ hport hsent
    simp [h.proxy hport] at hsent
  · rintro t rfl _ hport hsent
    simp [h.proxy hport] at hsent
  · rintro t n rfl _ hport hsent _
    simp [h.proxy hport] at hsent
  · rintro t host rfl _ _
    refine handleSession_cases e p { s with hostname := host } ?_ ?_ ?_ ?_
    · exact fun hc => absurd hc h.opened
    · rintro t w rfl _ hlen (hsock | hst)
      · have hsock : s.socket < 0 := hsock
        have := (hdata hlen).1
        omega
      · exact absurd hst (hdata hlen).2
    · rintro t w rfl _ _
      exact ⟨{ s with hostname := host, time := e.now, sendWindow := w }, rfl, rfl, rfl⟩
    · rintro t w rfl _ _ _ _
      exact ⟨queueTcp p
        { s with hostname := host, time := e.now, sendWindow := w }, by simp, by simp, rfl⟩

theorem handleTcp_of_comparesAck (abi : Abi) {p : Packet} {s : Session} (h : ComparesAck p s) :
    ∃ t, t.localSeq = s.localSeq ∧ t.acked = s.acked ∧
    handleTcp abi e p s = handleOtherAck e p t := by
  obtain ⟨t, hlocal, hacked, heq⟩ := handleTcp_of_acks e abi h.toAcks
  have hguard : ¬ (¬ p.ack = true ∨ p.ackSeq = t.localSeq) := by simp [h.ack, hlocal, h.ne]
  refine ⟨t, hlocal, hacked, heq.trans ?_⟩
  rw [handleFlags, if_neg (by simp [h.rst]), if_neg hguard]

theorem ComparesAck.shift {p : Packet} {s : Session} (h : ComparesAck p s) :
    ComparesAck (p.shift k l) (s.shift k l) := by
  refine ⟨⟨h.urg, h.proxy, h.opened, h.data, h.rst, h.ack⟩, ?_, ?_⟩
  · exact fun heq => h.ne (add_left_injective l heq)
  · simp only [Packet.shift, Session.shift]
    rw [add_right_comm, Ne, add_left_inj]
    exact h.ne'

theorem keepsAck_of_handleTcp (abi : Abi) {p : Packet} {s : Session} (h : ComparesAck p s)
    (hshift : handleTcp abi e (p.shift k l) (s.shift k l) = shiftResult k l (handleTcp abi e p s)) :
    KeepsAck l p s := by
  obtain ⟨t, hlocal, hacked, heq⟩ := handleTcp_of_comparesAck e abi h
  obtain ⟨u, hlocal', hacked', heq'⟩ := handleTcp_of_comparesAck e abi (h.shift k l)
  rw [heq, heq'] at hshift
  have hkeep :=
    keepsAck_of_result k l e p t u (by rw [hlocal', hlocal]; rfl) (by rw [hacked', hacked]; rfl)
    (by rw [hlocal]; exact h.ne') (by simp [hshift, shiftResult]) (by rw [hshift]; rfl)
  simpa only [KeepsAck, hlocal, hacked] using hkeep

end handle

theorem movesAlong_iff (abi : Abi) (e : PacketEnv) (k l : U32) (p : Packet) (s : Session) :
    MovesAlong abi e k l p s ↔ SameOrder abi e k l p s := by
  have hseq := queueing_seq e abi p s
  have hforward := queueing_forward e abi p s
  have hshift := queueing_shift k l e abi p s
  constructor
  · intro h
    have haccepts := h.accepts
    have hqueue := h.queue
    rw [hshift] at haccepts hqueue
    have hkeep : KeepsOrder k p.seq (queueing abi e p s).remoteSeq := haccepts
    refine ⟨hseq ▸ hkeep, fun hnew => ?_, fun hack => keepsAck_of_handleTcp k l e abi hack h.handle,
      (getSendWindow_shift_iff k l s).mp h.window⟩
    rw [← hforward]
    exact place_of_queueTcp_shift k l hkeep hqueue (by rwa [hseq])
  · intro h
    have hkeep : KeepsOrder k p.seq (queueing abi e p s).remoteSeq := hseq ▸ h.accepts
    refine ⟨handleTcp_shift k l e abi p s h.accepts h.place h.ack, ?_, ?_,
      (getSendWindow_shift_iff k l s).mpr h.window⟩
    · rw [hshift]
      exact hkeep
    · rw [hshift]
      exact queueTcp_shift k l p _ hkeep (by rw [hseq, hforward]; exact h.place)

/-! ## An ACK of bytes that were sent -/

/-- A number less than `2 ^ 30` behind another compares as smaller unless the sign
boundary is between them. -/
theorem compareU32_near {a b : U32} (hne : a ≠ b) (hnear : (b - a).toNat < 2 ^ 30) :
    compareU32 a b < 0 ↔ ¬ (a.toNat < 2 ^ 31 ∧ 2 ^ 31 ≤ b.toNat) := by
  have hne' : a.toNat ≠ b.toNat := fun h => hne (BitVec.eq_of_toNat_eq h)
  have ha := a.isLt
  have hb := b.isLt
  rw [compareU32_neg, BitVec.toInt_eq_toNat_cond, BitVec.toInt_eq_toNat_cond]
  rw [BitVec.toNat_sub] at hnear
  split <;> split <;> omega

theorem InWindow.near {p : Packet} {s : Session} (h : InWindow p s) :
    (s.localSeq - p.ackSeq).toNat < 2 ^ 30 := by
  obtain ⟨hle, hlt⟩ := h
  have hsplit : s.localSeq - p.ackSeq = (s.localSeq - s.acked) - (p.ackSeq - s.acked) :=
    (sub_sub_sub_cancel_right _ _ _).symm
  rw [hsplit, BitVec.toNat_sub_of_le (BitVec.le_def.mpr hle)]
  omega

theorem handleFlags_resets_iff (e : PacketEnv) (p : Packet) (s : Session) (hrst : p.rst = false)
    (hack : p.ack = true) :
    (∃ o ∈ (handleFlags e p s).2, o.resets) ↔
      p.ackSeq ≠ s.localSeq ∧ p.ackSeq + 1 ≠ s.localSeq ∧ ¬ compareU32 p.ackSeq s.localSeq < 0 := by
  have hfin : ∀ o ∈ (handleFin e s).2, ¬ o.resets := by
    refine handleFin_cases e s ?_ ?_ ?_ ?_ <;> simp [Out.resets, writeTcp]
  unfold handleFlags
  rw [if_neg (by simp [hrst])]
  by_cases heq : p.ackSeq = s.localSeq
  · rw [if_pos (.inr heq)]
    simp only [heq, ne_eq, not_true_eq_false, false_and, iff_false]
    rintro ⟨o, ho, hreset⟩
    split at ho
    · simp at ho
    · split at ho
      · exact hfin o ho hreset
      · simp at ho
  · rw [if_neg (by simp [hack, heq])]
    unfold handleOtherAck
    by_cases hnext : p.ackSeq + 1 = s.localSeq
    · rw [if_pos hnext]
      constructor
      · rintro ⟨o, ho, -⟩
        simp at ho
      · exact fun h => absurd hnext h.2.1
    · rw [if_neg hnext]
      by_cases hlt : compareU32 p.ackSeq s.localSeq < 0
      · rw [if_pos hlt]
        constructor
        · rintro ⟨o, ho, -⟩
          split at ho <;> simp at ho
        · exact fun h => absurd hlt h.2.2
      · rw [if_neg hlt]
        exact ⟨fun _ => ⟨heq, hnext, hlt⟩, fun _ => ⟨_, List.mem_singleton.mpr rfl, rfl⟩⟩

/-- A shift is exact while the comparisons keep their outcomes, and an ACK of bytes
that were sent is answered with a reset where the sign boundary is passed. -/
theorem shift_invariant_iff (abi : Abi) (e : PacketEnv) (p : Packet) (s : Session) :
    (∀ k l : U32, MovesAlong abi e k l p s ↔ SameOrder abi e k l p s) ∧
    (Acks p s → InWindow p s →
      ((¬ ∃ o ∈ (handleTcp abi e p s).2, o.resets) ↔
        (p.ackSeq = s.localSeq ∨ p.ackSeq + 1 = s.localSeq ∨ ¬ PassesSign p s))) := by
  refine ⟨fun k l => movesAlong_iff abi e k l p s, fun hacks hwin => ?_⟩
  obtain ⟨t, hlocal, -, heq⟩ := handleTcp_of_acks e abi hacks
  rw [heq, handleFlags_resets_iff e p t hacks.rst hacks.ack, hlocal]
  by_cases hsame : p.ackSeq = s.localSeq
  · simp [hsame]
  · rw [compareU32_near hsame hwin.near]
    simp only [PassesSign, hsame, ne_eq, not_false_eq_true, true_and, false_or]
    tauto

/-- A session whose own numbers start at `isn`, with 32 bytes written to the client. -/
def relayed (isn : U32) : Session :=
  (run (step .arm64V8a) (newSession { plainSyn 22 with rand := isn } (synPacket []))
    [.socket writable, .packet plainEnv (plainPacket 1001 (isn + 1) []),
      .socket (readable (List.replicate 32 0))]).1

theorem shift_invariant_iff_far :
    MovesAlong .arm64V8a plainEnv 7 9 (plainPacket 1001 5009 []) (relayed 5000) ∧
      ¬ ∃ o ∈ (handleTcp .arm64V8a plainEnv (plainPacket 1001 5009 []) (relayed 5000)).2,
      o.resets := by
  have hacks : Acks (plainPacket 1001 5009 []) (relayed 5000) := by
    constructor <;> decide +kernel
  refine ⟨((shift_invariant_iff _ _ _ _).1 _ _).mpr ⟨?_, ?_, fun _ => ?_, ?_⟩,
    ((shift_invariant_iff _ _ _ _).2 hacks (by decide +kernel)).mpr
      (.inr (.inr (by decide +kernel)))⟩
  · decide +kernel
  · rw [show (relayed 5000).forward = [] by decide +kernel]
    exact fun _ => trivial
  · exact ⟨by decide +kernel, fun _ => by decide +kernel⟩
  · exact .inl ⟨by decide +kernel, by decide +kernel⟩

/-- The ACK of eight of 32 bytes that pass the sign boundary is answered with a
reset; numbers moved by 4096 are not. -/
theorem sign_boundary_resets :
    ¬ MovesAlong .arm64V8a plainEnv 0 (-4096) (plainPacket 1001 0x7FFFFFF9 [])
    (relayed 0x7FFFFFF0) ∧
      InWindow (plainPacket 1001 0x7FFFFFF9 []) (relayed 0x7FFFFFF0) ∧
      ∃ o ∈ (handleTcp .arm64V8a plainEnv (plainPacket 1001 0x7FFFFFF9 []) (relayed 0x7FFFFFF0)).2,
      o.resets :=
  ⟨fun h => absurd h.handle (by decide +kernel), by decide +kernel, by decide +kernel⟩

end PdaNetClient.Tcp
