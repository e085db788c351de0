import PdaNetClient.TcpShift
import PdaNetClient.TcpUpstream

/-!
# The client's FIN

When the FIN is counted the queue is empty, but nothing compares its number with
what was forwarded. A FIN that overtakes data therefore acknowledges one byte that never came,
and not itself. It is counted once; data that comes again behind it resets the session.
-/
namespace PdaNetClient.Tcp

open Runs Numbered

set_option autoImplicit false

/-! ## What is written -/

/-- A segment whose acknowledgement number covers the FIN behind a stream of `len` bytes. -/
def CoversFin (start : U32) (len : Nat) : Out → Prop
  | .tun _ p _ => p.ack = true ∧ len + 2 ≤ (p.ackSeq - start).toNat
  | _ => False

instance (start : U32) (len : Nat) : (o : Out) → Decidable (CoversFin start len o)
  | .tun _ _ _ | .connect _ _ _ | .forward _ _ _ _ | .recv _ _ _ | .remoteFin | .close
      _ | .crash => by
    unfold CoversFin
    infer_instance

/-- Whatever covers the FIN is written when the stream was accepted to its end. Before the first
output `a` was accepted. -/
def FinAfter (S : Bytes) (start : U32) : Bytes → List Out → Prop
  | _, [] => True
  | a, o :: tr => (CoversFin start S.length o → a = S) ∧ FinAfter S start (a ++ o.accepted) tr

instance decidableFinAfter (S : Bytes) (start : U32) :
    (a : Bytes) → (tr : List Out) → Decidable (FinAfter S start a tr)
  | _, [] => isTrue trivial
  | a, o :: tr =>
    have := decidableFinAfter S start (a ++ o.accepted) tr
    inferInstanceAs (Decidable (_ ∧ FinAfter S start (a ++ o.accepted) tr))

theorem finAfter_append (S : Bytes) (start : U32) (a : Bytes) (x y : List Out) :
    FinAfter S start a (x ++ y) ↔ FinAfter S start a x ∧ FinAfter S start (a ++ accepted x) y := by
  induction x generalizing a with
  | nil => simp [FinAfter]
  | cons o x ih => simp [FinAfter, ih, and_assoc, List.append_assoc]

theorem finAfter_remoteFin {S : Bytes} {start : U32} {a : Bytes} {tr : List Out}
    (h : FinAfter S start a tr) :
    FinAfter S start a (.remoteFin :: tr) :=
  ⟨fun hcover => absurd hcover id, by simpa using h⟩

/-- The data of the packet was forwarded before, as part of `a`. -/
def Repeats (start : U32) (a : Bytes) (p : Packet) : Prop :=
  p.datalen ≠ 0 ∧ (if p.syn then 0 else (p.seq - (start + 1)).toNat) + p.datalen ≤ a.length

instance (start : U32) (a : Bytes) (p : Packet) : Decidable (Repeats start a p) :=
  inferInstanceAs (Decidable (_ ∧ _))

/-- The session so far, with everything it did. -/
def recorded (abi : Abi) : Machine (Session × List Out) Input Out := fun st i =>
  (((step abi st.1 i).1, st.2 ++ (step abi st.1 i).2), (step abi st.1 i).2)

/-- The FIN is covered behind the stream and counted once, and data that was forwarded does no
harm. -/
structure FinishesWell (abi : Abi) (S : Bytes) (start : U32) (st : Session × List Out)
    (i : Input) : Prop where
  after : FinAfter S start (accepted st.2) (step abi st.1 i).2
  once : total Out.finsConfirmed (st.2 ++ (step abi st.1 i).2) ≤ 1
  copies : ∀ e p, i = .packet e p → Repeats start (accepted st.2) p →
    ¬ ∃ o ∈ (step abi st.1 i).2, o.resets

/-- The session takes data, and does not take the acknowledgement number for one of the future. -/
def TakesData (s : Session) (p : Packet) : Prop :=
  p.urg = true ∨ ¬ s.state.closed ∧ 0 ≤ s.socket ∧ s.state ≠ .closeWait ∧
    (p.rst = true ∨ p.ack = false ∨ p.ackSeq = s.localSeq ∨ p.ackSeq + 1 = s.localSeq ∨
      compareU32 p.ackSeq s.localSeq < 0)

instance (s : Session) (p : Packet) : Decidable (TakesData s p) :=
  inferInstanceAs (Decidable (_ ∨ _))

def SendResult.isOk : SendResult → Bool
  | .ok _ => true
  | .fail _ => false

/-- Data that comes again finds a session that takes data; no send fails. -/
def Harmless (start : U32) (st : Session × List Out) : Input → Prop
  | .packet _ p => Repeats start (accepted st.2) p → TakesData st.1 p
  | .socket e => st.1.state ≠ .listen → e.ev.err = false → e.ev.out = true →
      ∀ i < st.1.forward.length, (e.sends i).isOk = true
  | _ => True

instance (start : U32) (st : Session × List Out) : (i : Input) → Decidable (Harmless start st i)
  | .packet _ _ | .socket _ | .monitor _ | .check _ => by unfold Harmless; infer_instance

/-- The packets of the client carry its stream. -/
def SendsStream (S : Bytes) (start : U32) : Input → Prop
  | .packet _ p => Agrees S start p
  | _ => True

/-! ## The invariant -/

/-- What the acknowledgement number says after `a` was accepted and `fins` FINs were counted. Behind
the FIN nothing is forwarded any more; a session closed before its handshake is `dropped`, and
forwards data under numbers that do not reach the end of the stream. -/
inductive Stage (S : Bytes) (start seq : U32) (st : State) (q : List Segment) (socket : Int)
    (a : Bytes) (fins : Nat) : Prop where
  | fresh (hst : st = .listen) (hseq : seq = start) (ha : a = []) (hfins : fins = 0)
      (hsent : ∀ g ∈ q, g.sent = 0)
  | counted (hst : st ≠ .listen) (hfin : st = .finWait1 → socket < 0)
      (hseq : seq = start + 1 + BitVec.ofNat 32 a.length)
      (ha : a <+: S) (hfins : fins = 0) (hsyn : ∀ g ∈ q, g.seq = start → g.sent = 0)
  | confirmed (hst : st.closed ∨ st = .closeWait ∨ st = .lastAck)
      (hend : socket < 0 ∨ q = [] ∧ st ≠ .lastAck)
      (hseq : seq = start + 1 + BitVec.ofNat 32 a.length + 1) (ha : a <+: S) (hfins : fins = 1)
  | dropped (hst : st.closed) (hseq : (seq - start).toNat ≤ S.length + 1) (hfins : fins = 0)

/-- The invariant, over the fields it reads. -/
structure FinishAt (S : Bytes) (start : U32) (dest : Nat) (connectSent : ConnectSent) (seq : U32)
    (st : State) (q : List Segment) (socket : Int) (a : Bytes) (fins : Nat) : Prop where
  port : ¬ proxied dest
  direct : connectSent = .notSent
  queued : Queued S start q
  stage : Stage S start seq st q socket a fins

abbrev Finish (S : Bytes) (start : U32) (s : Session) (a : Bytes) (fins : Nat) : Prop :=
  FinishAt S start s.dest s.connectSent s.remoteSeq s.state s.forward s.socket a fins

section

variable {S : Bytes} {start : U32} {s : Session} {a : Bytes} {fins : Nat}

theorem counted_sub (start : U32) {n : Nat} (hn : n + 1 < 2 ^ 32) :
    (start + 1 + BitVec.ofNat 32 n - start).toNat = n + 1 := by
  rw [add_assoc, add_sub_cancel_left, show (1 : U32) = BitVec.ofNat 32 1 from rfl,
    ← BitVec.ofNat_add, BitVec.toNat_ofNat, Nat.mod_eq_of_lt (by omega)]
  omega

/-- A number that covers the FIN stands behind the whole stream. -/
theorem Finish.covers (h : Finish S start s a fins) (hS : S.length + 2 < 2 ^ 32)
    (hcover : S.length + 2 ≤ (s.remoteSeq - start).toNat) : a = S := by
  cases h.stage with
  | fresh _ hseq => simp [hseq] at hcover
  | counted _ _ hseq ha =>
    have hlen := ha.length_le
    rw [hseq, counted_sub start (lt_trans (by omega : a.length + 1 < S.length + 2) hS)] at hcover
    omega
  | confirmed _ _ hseq ha =>
    have hlen := ha.length_le
    have hnext : BitVec.ofNat 32 a.length + 1 = BitVec.ofNat 32 (a.length + 1) :=
      (BitVec.ofNat_add _ _).symm
    rw [hseq, add_assoc (start + 1), hnext,
      counted_sub start (lt_of_le_of_lt (by omega : a.length + 1 + 1 ≤ S.length + 2) hS)] at hcover
    exact ha.eq_of_length (by omega)
  | dropped _ hseq => omega

theorem Finish.once (h : Finish S start s a fins) : fins ≤ 1 := by
  cases h.stage <;> omega

/-- What is written with the acknowledgement number of the session. -/
theorem Finish.writes (h : Finish S start s a fins) (hS : S.length + 2 < 2 ^ 32) (st : State)
    {t : Session} (data : Bytes) (syn ack fin rst ok : Bool)
    (hseq : ack = true → t.remoteSeq = s.remoteSeq) :
    FinAfter S start a [.tun st (writeTcp t data syn ack fin rst) ok] := by
  refine ⟨fun hcover => ?_, trivial⟩
  obtain ⟨hack, hcover⟩ := hcover
  have hack : ack = true := hack
  simp only [writeTcp, if_pos hack, hseq hack] at hcover
  exact h.covers hS hcover

/-- What a phase of a step does after `a` was accepted and `fins` FINs were counted. -/
structure Proceeds (S : Bytes) (start : U32) (a : Bytes) (fins : Nat)
    (r : Session × List Out) : Prop where
  after : FinAfter S start a r.2
  keeps : Finish S start r.1 (a ++ accepted r.2) (fins + total Out.finsConfirmed r.2)

theorem Finish.stays (h : Finish S start s a fins) : Proceeds S start a fins (s, []) :=
  ⟨trivial, by simpa using h⟩

/-- A phase that writes at most one segment, forwards nothing and counts no FIN. -/
theorem Finish.proceeds {t : Session} {outs : List Out} (h : Finish S start t a fins)
    (hafter : FinAfter S start a outs) (hacc : accepted outs = [])
    (hfins : total Out.finsConfirmed outs = 0) : Proceeds S start a fins (t, outs) := by
  refine ⟨hafter, ?_⟩
  simp only [hacc, hfins, List.append_nil, Nat.add_zero]
  exact h

/-- One phase behind another. -/
theorem Proceeds.trans {r : Session × List Out} {t : Session} {outs : List Out}
    (h : Proceeds S start a fins r)
    (h' : Proceeds S start (a ++ accepted r.2) (fins + total Out.finsConfirmed r.2) (t, outs)) :
    Proceeds S start a fins (t, r.2 ++ outs) := by
  refine ⟨(finAfter_append S start a r.2 outs).mpr ⟨h.after, h'.after⟩, ?_⟩
  have hkeeps := h'.keeps
  rwa [List.append_assoc, ← accepted_append, Nat.add_assoc, ← total_append] at hkeeps

/-- Closing changes neither the number nor the queue. -/
theorem Finish.closed (h : Finish S start s a fins) {st : State} (hst : st.closed) :
    Finish S start { s with state := st } a fins := by
  have hne : st ≠ .listen ∧ st ≠ .finWait1 ∧ st ≠ .lastAck := by rcases hst with rfl | rfl <;> simp
  refine ⟨h.port, h.direct, h.queued, ?_⟩
  cases h.stage with
  | fresh _ hseq _ hfins _ => exact .dropped hst (by simp [hseq]) hfins
  | counted _ _ hseq ha hfins hsyn =>
    exact .counted hne.1 (fun hfin => absurd hfin hne.2.1) hseq ha hfins hsyn
  | confirmed _ hend hseq ha hfins =>
    exact .confirmed (.inl hst) (hend.imp_right fun h => ⟨h.1, hne.2.2⟩) hseq ha hfins
  | dropped _ hseq hfins => exact .dropped hst hseq hfins

/-- The SYN is counted, by the handshake or by a reset. -/
theorem Finish.countSyn (h : Finish S start s a fins) (hlisten : s.state = .listen) (st : State)
    (hst : st ≠ .listen) (hfin : st ≠ .finWait1) :
    Finish S start { s with remoteSeq := s.remoteSeq + 1, state := st } a fins := by
  refine ⟨h.port, h.direct, h.queued, ?_⟩
  cases h.stage with
  | fresh _ hseq ha hfins hsent =>
    refine .counted hst (fun h => absurd h hfin) (by simp [hseq, ha]) (by simp [ha]) hfins ?_
    exact fun g hg _ => hsent g hg
  | counted hne => exact absurd hlisten hne
  | confirmed hst => simp [hlisten, State.closed] at hst
  | dropped hst => simp [hlisten, State.closed] at hst

theorem Finish.writeRst (h : Finish S start s a fins) (hS : S.length + 2 < 2 ^ 32) (ok : Bool) :
    Proceeds S start a fins (writeRst ok s) := by
  refine writeRst_cases ok s (fun hl => ?_) (fun st _ hst _ => ?_)
  · have hcount := h.countSyn hl .closing (by simp) (by simp)
    exact hcount.proceeds (hcount.writes hS _ _ _ _ _ _ _ fun _ => rfl) rfl rfl
  · exact (h.closed hst).proceeds (h.writes hS _ _ _ _ _ _ _ fun hack => by simp at hack) rfl rfl

/-- Queueing in an open session, on an open socket. -/
theorem Finish.queue (h : Finish S start s a fins) (p : Packet) (hp : Agrees S start p)
    (hlen : p.datalen ≠ 0) (hsock : 0 ≤ s.socket) (hopen : ¬ s.state.closed)
    (hst : s.state ≠ .closeWait) :
    Finish S start (queueTcp p s) a fins := by
  have hdata := hp.carries hlen
  rcases queueTcp_cases p s with hq | hq
  · rwa [hq]
  · rw [hq]
    refine ⟨h.port, h.direct, h.queued.insert hdata, ?_⟩
    cases h.stage with
    | fresh hl hseq ha hfins hsent =>
      apply Stage.fresh hl hseq ha hfins
      exact forall_insertSegment hsent rfl fun _ _ _ hg => hg
    | counted hne hfin hseq ha hfins hsyn =>
      apply Stage.counted hne hfin hseq ha hfins
      exact forall_insertSegment hsyn (fun _ => rfl) fun _ _ _ hg => hg
    | confirmed hlate hend =>
      rcases hend with hneg | ⟨-, hlast⟩
      · omega
      · exact absurd hlate (by simp [hopen, hst, hlast])
    | dropped hcl => exact absurd hcl hopen

/-! ## A segment from tun -/

/-- The FIN is counted behind the last byte that was accepted, when nothing is queued. -/
theorem Finish.countFin (h : Finish S start s a fins) (hopen : ¬ s.state.closed)
    (hst : s.state = .established ∨ s.state = .closeWait ∧ fins = 0 ∨ s.state = .finWait1)
    (st : State) (hlate : st.closed ∨ st = .closeWait)
    (hend : s.state = .finWait1 ∨ s.forward = []) :
    Finish S start { s with remoteSeq := s.remoteSeq + 1, state := st } a (fins + 1) := by
  have hlast : st ≠ .lastAck := by rcases hlate with (rfl | rfl) | rfl <;> simp
  refine ⟨h.port, h.direct, h.queued, ?_⟩
  cases h.stage with
  | fresh hl => simp [hl] at hst
  | counted _ hfin hseq ha hfins _ =>
    refine .confirmed (hlate.imp_right .inl) (hend.imp hfin fun hq => ⟨hq, hlast⟩) (by simp [hseq])
      ha (by simp [hfins])
  | confirmed hlate' _ _ _ hfins =>
    rcases hst with hst | ⟨-, hzero⟩ | hst
    · exact absurd hlate' (by simp [hst, State.closed])
    · omega
    · exact absurd hlate' (by simp [hst, State.closed])
  | dropped hcl => exact absurd hcl hopen

theorem handleFin_proceeds (e : PacketEnv) (hS : S.length + 2 < 2 ^ 32) (hopen : ¬ s.state.closed)
    (h : Finish S start s a fins) :
    Proceeds S start a fins (handleFin e s) := by
  refine handleFin_cases e s h.stays ?_ ?_ ?_
  · intro hst _
    refine Finish.stays ⟨h.port, h.direct, h.queued, ?_⟩
    cases h.stage with
    | fresh hl => simp [hst] at hl
    | counted _ _ hseq ha hfins hsyn => exact .counted (by simp) (by simp) hseq ha hfins hsyn
    | confirmed hlate => simp [hst, State.closed] at hlate
    | dropped hcl => exact absurd hcl hopen
  · rintro t rfl hst hq
    have hcount := h.countFin hopen (.inl hst) (if e.tun.ack then .closeWait else .closing)
      (by cases e.tun.ack <;> simp [State.closed]) (.inr hq)
    exact ⟨finAfter_remoteFin (hcount.writes hS _ _ _ _ _ _ _ fun _ => rfl), by simpa using hcount⟩
  · rintro t rfl hst
    have hcount := h.countFin hopen (.inr (.inr hst)) (if e.tun.ack then .close else .closing)
      (by cases e.tun.ack <;> simp [State.closed]) (.inl hst)
    exact ⟨finAfter_remoteFin (hcount.writes hS _ _ _ _ _ _ _ fun _ => rfl), by simpa using hcount⟩

theorem handleFlags_proceeds (e : PacketEnv) (p : Packet) (hS : S.length + 2 < 2 ^ 32)
    (hopen : ¬ s.state.closed) (h : Finish S start s a fins) :
    Proceeds S start a fins (handleFlags e p s) := by
  refine handleFlags_cases e p s h.stays ?_ ?_ ?_ ?_ ?_
  · exact (h.closed closed_closing).stays
  · exact fun _ _ _ _ => handleFin_proceeds e hS hopen h
  · rintro st rfl _
    refine Finish.stays ⟨h.port, h.direct, h.queued, ?_⟩
    cases hst : s.state with
    | lastAck => exact (h.closed closed_closing).stage
    | synRecv =>
      cases h.stage with
      | fresh hl => simp [hst] at hl
      | counted _ _ hseq ha hfins hsyn => exact .counted (by simp) (by simp) hseq ha hfins hsyn
      | confirmed hlate => simp [hst, State.closed] at hlate
      | dropped hcl => exact absurd hcl hopen
    | _ => simpa only [hst] using h.stage
  · exact fun _ _ => Finish.stays h
  · exact fun _ _ => h.writeRst hS _

theorem handleSession_proceeds (e : PacketEnv) (p : Packet) (hS : S.length + 2 < 2 ^ 32)
    (hp : Agrees S start p) (h : Finish S start s a fins) :
    Proceeds S start a fins (handleSession e p s) := by
  refine handleSession_cases e p s ?_ ?_ ?_ ?_
  · exact fun _ => h.writeRst hS _
  · rintro t w rfl _ _ _
    exact Finish.writeRst (s := { s with time := e.now, sendWindow := w }) h hS e.tun.rst
  · rintro t w rfl hopen _
    exact handleFlags_proceeds (s := { s with time := e.now, sendWindow := w }) e p hS hopen h
  · rintro t w rfl hopen hlen hsock hst
    have hq :=
      Finish.queue (s := { s with time := e.now, sendWindow := w }) h p hp hlen hsock hopen hst
    exact handleFlags_proceeds e p hS (by simpa using hopen) hq

theorem handleTcp_proceeds (abi : Abi) (e : PacketEnv) (p : Packet) (hS : S.length + 2 < 2 ^ 32)
    (hp : Agrees S start p) (h : Finish S start s a fins) :
    Proceeds S start a fins (handleTcp abi e p s) := by
  by_cases hurg : p.urg = true
  · rw [handleTcp, if_pos hurg]
    exact h.stays
  · rw [handleTcp_plain_port abi e (Bool.eq_false_iff.mpr hurg) h.port]
    exact handleSession_proceeds e p hS hp h

/-! ## An event on the socket -/

/-- A segment ends at the end of the stream at the latest. -/
theorem Queued.ends (h : Queued S start s.forward) (hS : S.length + 2 < 2 ^ 32) {g : Segment}
    (hg : g ∈ s.forward) {n : Nat} (hn : n ≤ g.len) :
    (g.seq + BitVec.ofNat 32 n - start).toNat ≤ S.length + 1 := by
  rcases h g hg with ⟨hseq, hdata⟩ | ⟨i, hseq, hlen, -⟩
  · have hlen : g.len ≤ S.length := hdata.length_le
    rw [hseq, add_sub_cancel_left, BitVec.toNat_ofNat, Nat.mod_eq_of_lt (by omega)]
    omega
  · have hlen : i + g.len ≤ S.length := hlen
    rw [hseq, add_assoc, ← BitVec.ofNat_add, counted_sub start (by omega)]
    omega

theorem Finish.pass (h : Finish S start s a fins) (hS : S.length + 2 < 2 ^ 32)
    (hst : s.state ≠ .listen) (hsock : 0 ≤ s.socket) {g : Segment} {q : List Segment} {n : Nat}
    (hn : n ≤ g.len - g.sent) (hq : s.forward = g :: q)
    (hseq : g.seq + BitVec.ofNat 32 g.sent = s.remoteSeq) :
    fins = 0 ∧ Finish S start (passed s g q n hn) (a ++ g.rest.take n) fins := by
  have hqueued : Queued S start (passed s g q n hn).forward := h.queued.passed hq
  cases h.stage with
  | fresh hl => exact absurd hl hst
  | counted hne hfin hcount ha hfins hsyn =>
    obtain ⟨htaken, hcount', hsyn'⟩ := counted_passed hn h.queued hS ha hcount hsyn hq hseq
    exact ⟨hfins, h.port, h.direct, hqueued, .counted hne hfin hcount' htaken hfins hsyn'⟩
  | confirmed _ hend =>
    rcases hend with hneg | ⟨hnil, -⟩
    · omega
    · simp [hq] at hnil
  | dropped hcl _ hfins =>
    refine ⟨hfins, h.port, h.direct, hqueued, .dropped hcl ?_ hfins⟩
    have hle := g.sent_le_len
    have hmem : g ∈ s.forward := by simp [hq]
    exact h.queued.ends hS hmem (by omega)

/-- An output that is no segment. -/
theorem finAfter_other {S : Bytes} {start : U32} {a : Bytes} {o : Out}
    (ho : ∀ st p ok, o ≠ .tun st p ok) : FinAfter S start a [o] := by
  refine ⟨fun hcover => ?_, trivial⟩
  cases o with
  | tun st p ok => exact absurd rfl (ho st p ok)
  | _ => exact absurd hcover id

theorem Proceeds.emit {t t' : Session} {tr : List Out} {o : Out}
    (h : Proceeds S start a fins (t, tr)) (ho : ∀ st p ok, o ≠ .tun st p ok)
    (hfin : o.finsConfirmed = 0)
    (hnext : Finish S start t' (a ++ accepted tr ++ o.accepted)
      (fins + total Out.finsConfirmed tr)) :
    Proceeds S start a fins (t', tr ++ [o]) := by
  apply h.trans
  refine ⟨finAfter_other ho, ?_⟩
  rw [accepted_cons, accepted_nil, List.append_nil, total_cons, total_nil, hfin]
  exact hnext

/-- The forward loop works on a session whose FIN is not counted. -/
theorem forwardData_proceeds (abi : Abi) (e : SocketEnv) (hS : S.length + 2 < 2 ^ 32)
    (hst : s.state ≠ .listen)
    (hok : e.ev.out = true → ∀ i < s.forward.length, (e.sends i).isOk = true)
    (h : Finish S start s a fins) :
    Proceeds S start a fins ((forwardData abi e s).1, (forwardData abi e s).2.2) ∧
      ((forwardData abi e s).2.1 = true →
        fins + total Out.finsConfirmed (forwardData abi e s).2.2 = 0) := by
  by_cases hsock : s.socket < 0
  · rw [forwardData_no_socket abi e s hsock]
    exact ⟨h.stays, by simp⟩
  · by_cases hout : e.ev.out = true
    · have hrule := forwardData_rule
        (fun fwd t tr => (t.state = s.state ∧ 0 ≤ t.socket) ∧ Proceeds S start a fins (t, tr) ∧
          (fwd = true → fins + total Out.finsConfirmed tr = 0)) abi e s []
        (fun _ t tr ⟨hsame, ht, hfwd⟩ => by
          refine ⟨hsame, ht.trans ?_, by simpa using hfwd⟩
          exact ht.keeps.proceeds (finAfter_other (by simp)) rfl rfl)
        (fun i _ t tr g q n hn ⟨⟨hstate, hopen⟩, ht, _⟩ hdrop hq hseq hmark => by
          obtain ⟨hi, -⟩ := getElem_of_drop hdrop
          have hres : ∃ m, e.sends i = .ok m := by
            cases hsend : e.sends i with
            | ok m => exact ⟨m, rfl⟩
            | fail err => simpa [hsend, SendResult.isOk] using hok hout i hi
          have hacc := pass_accepts (e.sends i) (e.after i) g ht.keeps.port hopen hres
          obtain ⟨hzero, hnext⟩ := ht.keeps.pass hS (by rwa [hstate]) hopen hn hq hseq
          rw [← hmark] at hacc
          rw [← hacc] at hnext
          exact ⟨⟨hstate, hopen⟩, ht.emit (by simp) rfl hnext, fun _ => by simpa using hzero⟩)
        ⟨⟨rfl, by omega⟩, h.stays, by simp⟩
      exact hrule.2
    · simp only [forwardData, hout, Bool.false_eq_true, if_false]
      exact ⟨h.stays, by simp⟩

theorem acked_finish (e : SocketEnv) (h : Finish S start s a fins) :
    Finish S start (acked e s) a fins := by
  unfold acked
  split
  · exact h
  · exact h.closed closed_closing

theorem ackForwarded_proceeds (e : SocketEnv) (fwd : Bool) (hS : S.length + 2 < 2 ^ 32)
    (hfwd : fwd = true → fins = 0) (h : Finish S start s a fins) :
    Proceeds S start a fins (ackForwarded e fwd s) := by
  refine ackForwarded_cases e fwd s ?_ ?_ ?_
  · exact fun _ => Finish.stays h
  · rintro t rfl hset hq hst
    have hcount := h.countFin (by simp [hst, State.closed]) (.inr (.inl ⟨hst, hfwd hset⟩)) s.state
      (.inr hst) (.inr hq)
    refine ⟨finAfter_remoteFin (hcount.writes hS _ _ _ _ _ _ _ fun _ => rfl), ?_⟩
    have hnext := acked_finish
      (s := { s with recvWindow := getReceiveWindow s e.rcvbuf, remoteSeq := s.remoteSeq + 1 })
      e hcount
    simpa using hnext
  · rintro t rfl _ _
    have hnext := acked_finish (s := { s with recvWindow := getReceiveWindow s e.rcvbuf }) e h
    exact hnext.proceeds (h.writes hS _ _ _ _ _ _ _ fun _ => rfl) rfl rfl

/-- Once the descriptor is closed nothing is forwarded. -/
theorem Finish.offline (h : Finish S start s a fins) {fd : Int} (hfd : fd < 0) :
    Finish S start { s with socket := fd } a fins := by
  refine ⟨h.port, h.direct, h.queued, ?_⟩
  cases h.stage with
  | fresh hl hseq ha hfins hsent => exact .fresh hl hseq ha hfins hsent
  | counted hne _ hseq ha hfins hsyn => exact .counted hne (fun _ => hfd) hseq ha hfins hsyn
  | confirmed hlate _ hseq ha hfins => exact .confirmed hlate (.inl hfd) hseq ha hfins
  | dropped hcl hseq hfins => exact .dropped hcl hseq hfins

/-- The state behind the program's own FIN. -/
theorem Finish.eof (h : Finish S start s a fins)
    (hst : s.state = .established ∨ s.state = .closeWait) :
    Finish S start { s with state := if s.state =
      .established then .finWait1 else .lastAck, socket := -1 } a fins := by
  refine ⟨h.port, h.direct, h.queued, ?_⟩
  cases h.stage with
  | fresh hl => simp [hl] at hst
  | counted _ _ hseq ha hfins hsyn =>
    exact .counted (by rcases hst with hst | hst <;> simp [hst]) (fun _ => by simp) hseq
      ha hfins hsyn
  | confirmed hlate _ hseq ha hfins =>
    have hwait : s.state ≠ .established := by
      intro hest
      simp [hest, State.closed] at hlate
    exact .confirmed (.inr (.inr (if_neg hwait))) (.inl (by simp)) hseq ha hfins
  | dropped hcl => rcases hst with hst | hst <;> simp [hst, State.closed] at hcl

theorem finAfter_unacked {S : Bytes} {start : U32} {a : Bytes} {st : State} {p : TunPacket}
    {ok : Bool} (hack : p.ack = false) :
    FinAfter S start a [.tun st p ok] :=
  ⟨fun hcover => absurd hcover.1 (by simp [hack]), trivial⟩

theorem finAfter_pair {S : Bytes} {start : U32} {a : Bytes} {x y : Out}
    (hx : FinAfter S start a [x]) (hy : FinAfter S start a [y]) (hacc : x.accepted = []) :
    FinAfter S start a [x, y] := by
  refine ⟨hx.1, ?_⟩
  rwa [hacc, List.append_nil]

theorem handleEof_proceeds (e : SocketEnv) (hS : S.length + 2 < 2 ^ 32)
    (hst : s.state = .established ∨ s.state = .closeWait) (h : Finish S start s a fins) :
    Proceeds S start a fins (handleEof e s) := by
  have hclose (fd : Int) : FinAfter S start a [.close fd] := finAfter_other (by simp)
  have hclosing : Finish S start { s with state := .closing, socket := -1 } a fins :=
    Finish.offline (s := { s with state := .closing }) (h.closed closed_closing) (by simp)
  refine handleEof_cases e s hst ?_ ?_ ?_
  · exact fun _ => hclosing.proceeds (finAfter_pair (finAfter_unacked rfl) (hclose _) rfl) rfl rfl
  · intro _ _
    exact Finish.proceeds (h.eof hst)
      (finAfter_pair (h.writes hS _ _ _ _ _ _ _ fun _ => rfl) (hclose _) rfl) rfl rfl
  · exact fun _ _ => hclosing.proceeds
      (finAfter_pair (h.writes hS _ _ _ _ _ _ _ fun _ => rfl) (hclose _) rfl) rfl rfl

theorem readSocket_proceeds (e : SocketEnv) (hS : S.length + 2 < 2 ^ 32)
    (h : Finish S start s a fins) :
    Proceeds S start a fins (readSocket e s) := by
  have hread (asked : Nat) (got : Option Bytes) : FinAfter S start a [.recv s.state asked got] :=
    finAfter_other (by simp)
  refine readSocket_cases e s h.stays ?_ ?_ ?_ ?_ ?_
  · exact fun _ _ => Finish.proceeds h (hread _ _) rfl rfl
  · intro _ _
    exact Finish.proceeds (h.closed closed_closing)
      (finAfter_pair (hread _ _) (finAfter_unacked rfl) rfl) rfl rfl
  · intro asked hst
    have heof := handleEof_proceeds (s := { s with time := e.now }) e hS hst h
    have hfirst :
        Proceeds S start a fins ({ s with time := e.now }, [.recv s.state asked (some [])]) :=
      Finish.proceeds h (hread _ _) rfl rfl
    exact hfirst.trans (by simpa using heof)
  · rintro asked bytes t _ _ _ rfl _
    exact Finish.proceeds h
      (finAfter_pair (hread _ _) (h.writes hS _ _ _ _ _ _ _ fun _ => rfl) rfl) rfl rfl
  · rintro asked bytes t _ _ rfl _
    exact Finish.proceeds (h.closed closed_closing)
      (finAfter_pair (hread _ _) (h.writes hS _ _ _ _ _ _ _ fun _ => rfl) rfl) rfl rfl

theorem relay_proceeds (abi : Abi) (e : SocketEnv) (hS : S.length + 2 < 2 ^ 32)
    (hst : s.state ≠ .listen)
    (hok : e.ev.out = true → ∀ i < s.forward.length, (e.sends i).isOk = true)
    (h : Finish S start s a fins) :
    Proceeds S start a fins (relay abi e s) := by
  obtain ⟨hf, hfwd⟩ := forwardData_proceeds abi e hS hst hok h
  have hack := ackForwarded_proceeds e (forwardData abi e s).2.1 hS hfwd hf.keeps
  have hrelayed := hf.trans hack
  exact hrelayed.trans (readSocket_proceeds e hS hrelayed.keeps)

theorem checkTcpSocket_proceeds (abi : Abi) (e : SocketEnv) (hS : S.length + 2 < 2 ^ 32)
    (hok : s.state ≠ .listen → e.ev.err = false → e.ev.out = true →
      ∀ i < s.forward.length, (e.sends i).isOk = true)
    (h : Finish S start s a fins) : Proceeds S start a fins (checkTcpSocket abi e s) := by
  refine checkTcpSocket_cases abi e s ?_ ?_ ?_ ?_
  · exact fun _ => Finish.writeRst (s := { s with time := e.now }) h hS e.tun.rst
  · intro _ hst _
    have hread (got : Option Bytes) : FinAfter S start a [.recv .listen 12 got] :=
      finAfter_other (by simp)
    have hrst (got : Option Bytes) : Proceeds S start a fins
        ((writeRst e.tun.rst s).1, .recv .listen 12 got :: (writeRst e.tun.rst s).2) := by
      have hfirst : Proceeds S start a fins (s, [.recv .listen 12 got]) :=
        h.proceeds (hread got) rfl rfl
      exact hfirst.trans (by simpa using h.writeRst hS e.tun.rst)
    refine readReply_cases e s hst ?_ ?_ ?_
    · exact fun _ _ => hrst none
    · exact fun _ _ _ => hrst _
    · intro _ _ hsent
      simp [h.direct] at hsent
  · intro _ hst _
    refine handshake_cases e s hst ?_ ?_
    · rintro t rfl
      have hcount := h.countSyn hst .synRecv (by simp) (by simp)
      exact Finish.proceeds hcount (hcount.writes hS _ _ _ _ _ _ _ fun _ => rfl) rfl rfl
    · rintro t rfl
      have hcount := h.countSyn hst .closing (by simp) (by simp)
      exact Finish.proceeds hcount (hcount.writes hS _ _ _ _ _ _ _ fun _ => rfl) rfl rfl
  · exact fun herr hst => relay_proceeds abi e hS hst (hok hst herr) h

/-! ## Steps and runs -/

/-- The keep-alive acknowledges one byte less than was accepted. -/
theorem Finish.keepAlive (h : Finish S start s a fins) (hS : S.length + 2 < 2 ^ 32)
    (hst : s.state = .established ∨ s.state = .closeWait) (ok : Bool) :
    FinAfter S start a [.tun s.state
      (writeTcp { s with remoteSeq := s.remoteSeq - 1 } [] false true false false) ok] := by
  refine ⟨fun hcover => ?_, trivial⟩
  have hcover : S.length + 2 ≤ (s.remoteSeq - 1 - start).toNat := hcover.2
  cases h.stage with
  | fresh hl => simp [hl] at hst
  | counted _ _ hseq ha =>
    have hlen := ha.length_le
    rw [hseq, add_right_comm, add_sub_cancel_right, add_sub_cancel_left, BitVec.toNat_ofNat,
      Nat.mod_eq_of_lt (by omega)] at hcover
    omega
  | confirmed _ _ hseq ha =>
    have hlen := ha.length_le
    rw [hseq, add_sub_cancel_right, counted_sub start (by omega)] at hcover
    omega
  | dropped hcl => rcases hst with hst | hst <;> simp [hst, State.closed] at hcl

theorem step_proceeds (abi : Abi) (tr : List Out) (i : Input) (hS : S.length + 2 < 2 ^ 32)
    (hi : SendsStream S start i) (hcalm : Harmless start (s, tr) i) (h : Finish S start s a fins) :
    Proceeds S start a fins (step abi s i) := by
  cases i with
  | packet e p => exact handleTcp_proceeds abi e p hS hi h
  | socket e => exact checkTcpSocket_proceeds abi e hS hcalm h
  | monitor e =>
    refine monitorStep_cases abi e s h.stays ?_
    rintro t ev outs ⟨ms, st, rfl, hst, houts⟩
    have hnext : Finish S start { s with state := st } a fins := by
      rcases hst with rfl | rfl
      · exact h
      · exact h.closed closed_closing
    rcases houts with rfl | ⟨⟨hread, -⟩, rfl⟩
    · exact Finish.stays hnext
    · exact Finish.proceeds hnext (h.keepAlive hS hread e.ackOk) rfl rfl
  | check e =>
    have hclose : FinAfter S start a (if 0 ≤ s.socket then [.close s.socket] else []) := by
      split
      · exact finAfter_other (by simp)
      · trivial
    have hnone : accepted (if 0 ≤ s.socket then [.close s.socket] else []) = [] ∧
        total Out.finsConfirmed (if 0 ≤ s.socket then [.close s.socket] else []) = 0 := by
      split <;> exact ⟨rfl, rfl⟩
    have hend {fd : Int} (hfd : fd = closedFd s.socket) :
        Finish S start { s with state := .close, socket := fd } a fins :=
      Finish.offline (s := { s with state := .close }) (h.closed (.inr rfl)) (hfd ▸ closedFd_neg _)
    show Proceeds S start a fins ((checkTcpSession e s).1, (checkTcpSession e s).2.2)
    refine checkTcpSession_cases e s ?_ ?_ ?_ ?_
    · exact fun _ => h.stays
    · exact fun _ _ => Finish.stays h
    · rintro fd del t rfl _ hfd
      exact Finish.proceeds (hend hfd) hclose hnone.1 hnone.2
    · rintro fd del t rfl _ _ hfd
      refine Finish.proceeds (hend hfd)
        ⟨fun hcover => absurd hcover.1 (by simp [writeTcp]), by simpa using hclose⟩ ?_ ?_
      · simp [hnone.1]
      · simp [hnone.2]

end

/-! ## Copies of data -/

theorem handleFlags_unacked (e : PacketEnv) (p : Packet) (s : Session)
    (h : p.rst = true ∨ p.ack = false) :
    ¬ ∃ o ∈ (handleFlags e p s).2, o.resets := by
  have hfin : ∀ o ∈ (handleFin e s).2, ¬ o.resets := by
    refine handleFin_cases e s ?_ ?_ ?_ ?_ <;> simp [Out.resets, writeTcp]
  rintro ⟨o, ho, hreset⟩
  by_cases hrst : p.rst = true
  · simp [handleFlags, hrst] at ho
  · have hack : p.ack = false := h.resolve_left hrst
    simp only [handleFlags, hrst, hack, Bool.false_eq_true, if_false, not_false_eq_true, true_or,
      if_true] at ho
    split at ho
    · simp at ho
    · split at ho
      · exact hfin o ho hreset
      · simp at ho

/-- Data resets the session exactly if it does not take data, or takes the number acknowledged for
one it has not reached. -/
theorem data_resets_iff (abi : Abi) (e : PacketEnv) (p : Packet) (s : Session)
    (hport : ¬ proxied s.dest) (hlen : p.datalen ≠ 0) :
    (¬ ∃ o ∈ (handleTcp abi e p s).2, o.resets) ↔ TakesData s p := by
  by_cases hurg : p.urg = true
  · rw [handleTcp, if_pos hurg]
    simp [TakesData, hurg]
  · rw [handleTcp_plain_port abi e (Bool.eq_false_iff.mpr hurg) hport, handleSession]
    have hreset (t : Session) : ∃ o ∈ (writeRst e.tun.rst t).2, o.resets :=
      ⟨_, List.mem_singleton.mpr rfl, rfl⟩
    by_cases hclosed : s.state.closed
    · rw [if_pos hclosed]
      exact iff_of_false (not_not_intro (hreset s)) fun h => (h.resolve_left hurg).1 hclosed
    · rw [if_neg hclosed]
      simp only
      rw [if_neg hlen]
      by_cases hsock : s.socket < 0
      · rw [if_pos hsock]
        exact iff_of_false (not_not_intro (hreset _)) fun h =>
          absurd (h.resolve_left hurg).2.1 (by omega)
      · rw [if_neg hsock]
        by_cases hwait : s.state = .closeWait
        · rw [if_pos hwait]
          exact iff_of_false (not_not_intro (hreset _)) fun h => (h.resolve_left hurg).2.2.1 hwait
        · rw [if_neg hwait]
          by_cases hquiet : p.rst = true ∨ p.ack = false
          · refine iff_of_true (handleFlags_unacked e p _ hquiet)
              (.inr ⟨hclosed, by omega, hwait, ?_⟩)
            exact hquiet.imp_right .inl
          · have hrst : p.rst = false := Bool.eq_false_iff.mpr fun h => hquiet (.inl h)
            have hack : p.ack = true := by
              by_contra h
              exact hquiet (.inr (Bool.eq_false_iff.mpr h))
            rw [handleFlags_resets_iff e p _ hrst hack, queueTcp_localSeq]
            simp only [TakesData, hurg, hclosed, not_false_eq_true, hwait, ne_eq, hrst, hack,
              Bool.false_eq_true, Bool.true_eq_false, false_or, true_and, Int.not_lt.mp hsock]
            tauto

/-- The FIN is covered in order and counted once along every run whose steps are harmless; and data
that comes again resets nothing exactly if the session takes data. -/
theorem fin_covered_in_order (abi : Abi) (S : Bytes) (hS : S.length + 2 < 2 ^ 32) (e : SynEnv)
    (p : Packet) (hport : ¬ proxied e.dest) (hsyn : p.syn = true) (hp : Agrees S p.seq p)
    (is : List Input) (hin : ∀ i ∈ is, SendsStream S p.seq i) :
    (Along (recorded abi) (Harmless p.seq) (newSession e p, []) is →
      Along (recorded abi) (FinishesWell abi S p.seq) (newSession e p, []) is) ∧
    ∀ e q s, ¬ proxied s.dest → q.datalen ≠ 0 →
    ((¬ ∃ o ∈ (handleTcp abi e q s).2, o.resets) ↔ TakesData s q) := by
  refine ⟨fun h => ?_, fun e q s hport hlen => data_resets_iff abi e q s hport hlen⟩
  apply along_of_invariant (recorded abi) (fun st i => SendsStream S p.seq i ∧
    Harmless p.seq st i) _
    (fun st => Finish S p.seq st.1 (accepted st.2) (total Out.finsConfirmed st.2))
  · rintro ⟨s, tr⟩ i hs ⟨hi, hcalm⟩
    have hstep := step_proceeds abi tr i hS hi hcalm hs
    refine ⟨⟨hstep.after, ?_, ?_⟩, ?_⟩
    · simpa using hstep.keeps.once
    · rintro e q rfl hrep
      exact (data_resets_iff abi e q s hs.port hrep.1).mpr (hcalm hrep)
    · simpa [recorded] using hstep.keeps
  · have hfresh := newSession_upstream S e p hport hsyn hp
    refine ⟨by simpa using hport, by simp, hfresh.queued,
      .fresh (by simp) (by simp) rfl rfl fun g hg => ?_⟩
    rw [newSession_forward] at hg
    split at hg
    · simp at hg
    · rw [List.mem_singleton] at hg
      rw [hg, sent_newSegment]
  · exact (along_and _ _ _ _ _).mpr ⟨along_of_forall _ _ _ hin, h⟩

/-- The handshake of a connection to port 22. -/
def opening : List Input := [.socket writable, .packet plainEnv (plainPacket 1001 5001 [])]

def finAt (seq : U32) : Input := .packet plainEnv { plainPacket seq 5001 [] with fin := true }

/-- The second byte comes before the first, and the FIN twice. -/
theorem fin_covered_in_order_shuffled :
    Along (recorded .arm64V8a) (FinishesWell .arm64V8a (ascii "ab") 1000)
    (newSession (plainSyn 22) (synPacket []), [])
      (opening ++ [.packet plainEnv (plainPacket 1002 5001 (ascii "b")),
        .packet plainEnv (plainPacket 1001 5001 (ascii "a")), .socket writable, finAt 1003,
        finAt 1003]) := by
  apply (fin_covered_in_order .arm64V8a (ascii "ab") (by decide) (plainSyn 22) (synPacket [])
    (by decide) rfl
    (fun h => absurd rfl h) _ ?_).1 (by decide +kernel)
  have hempty (p : Packet) (hp : p.datalen = 0) :
    SendsStream (ascii "ab") 1000 (.packet plainEnv p) := fun hlen => absurd hp hlen
  simp only [opening, List.cons_append, List.nil_append, List.forall_mem_cons, List.not_mem_nil,
    false_imp_iff, implies_true, and_true]
  refine ⟨trivial, hempty _ rfl, fun _ => ⟨1, rfl, by decide, by decide⟩,
    fun _ => ⟨0, rfl, by decide, by decide⟩, trivial, ?_, ?_⟩
  · exact hempty _ rfl
  · exact hempty _ rfl

/-- One byte, offered to the socket. -/
def oneByte (send : SendResult) : List Input :=
  opening ++ [.packet plainEnv (plainPacket 1001 5001 (ascii "a")),
    .socket { writable with sends := fun _ => send }]

/-- The byte comes again behind the FIN, and resets the session; and the FIN is covered though the
socket refused the byte. -/
theorem fin_not_in_order :
    let s := newSession (plainSyn 22) (synPacket [])
    let again := Input.packet plainEnv (plainPacket 1001 5001 (ascii "a"))
    (∀ send, ∀ i ∈ oneByte send ++ [finAt 1002, again], SendsStream (ascii "a") 1000 i) ∧
      ¬ Along (recorded .arm64V8a) (FinishesWell .arm64V8a (ascii "a") 1000) (s, [])
        (oneByte (.ok 1) ++ [finAt 1002, again]) ∧
      ¬ Along (recorded .arm64V8a) (FinishesWell .arm64V8a (ascii "a") 1000) (s, [])
        (oneByte (.fail .other) ++ [finAt 1002]) := by
  intro s again
  refine ⟨fun send => ?_, fun h => ?_, fun h => ?_⟩
  · have hbyte :
        SendsStream (ascii "a") 1000 (.packet plainEnv (plainPacket 1001 5001 (ascii "a"))) :=
      fun _ => .of_initial List.prefix_rfl
    have hempty (p : Packet) (hp : p.datalen = 0) :
      SendsStream (ascii "a") 1000 (.packet plainEnv p) := fun hlen => absurd hp hlen
    simp only [oneByte, opening, List.cons_append, List.nil_append, List.forall_mem_cons,
      List.not_mem_nil, false_imp_iff, implies_true, and_true]
    exact ⟨trivial, hempty _ rfl, hbyte, trivial, hempty _ rfl, hbyte⟩
  · rw [along_append, along_cons, along_cons] at h
    have hcopy := h.2.2.1.copies _ _ rfl
    revert hcopy
    decide +kernel
  · rw [along_append, along_cons] at h
    exact mt FinishesWell.after (by decide +kernel) h.2.1

end PdaNetClient.Tcp
