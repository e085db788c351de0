import PdaNetClient.TcpAccounting

/-!
# Flow control toward the client

What is on the way to the client is a count beside the session: written payload adds to
it, and an acknowledgement leaves at most what lies behind its number. The
code computes the room from `acked` and `local_seq` alone, and when `acked` compares as
the larger one it takes `acked` itself for a length.
-/
namespace PdaNetClient.Tcp

open Http Runs

set_option autoImplicit false

/-- The payload of a write to tun, whether it succeeds or not. -/
@[simp] def Out.offered : Out → Nat
  | .tun _ p _ => p.data.length
  | _ => 0

/-- Of `u` bytes on the way to the client, those behind the number it acknowledges. -/
def acknowledge (p : Packet) (s : Session) (u : Nat) : Nat :=
  if p.ack then min u (s.localSeq - p.ackSeq).toNat else u

/-- The bytes on the way to the client after a step. -/
def inFlight (abi : Abi) (s : Session) (u : Nat) (i : Input) : Nat :=
  (match i with
    | .packet _ p => acknowledge p s u
    | _ => u) + total Out.payload (step abi s i).2

/-- The session with the count of the bytes on the way. -/
def counted (abi : Abi) : Machine (Session × Nat) Input Out :=
  fun su i => (((step abi su.1 i).1, inFlight abi su.1 su.2 i), (step abi su.1 i).2)

/-- Each write of payload fits the client's window with what is on the way. -/
def FitsWindow (abi : Abi) (su : Session × Nat) (i : Input) : Prop :=
  ∀ o ∈ (step abi su.1 i).2, o.offered ≠ 0 → su.2 + o.offered ≤ su.1.sendWindow.toNat

instance (abi : Abi) (su : Session × Nat) (i : Input) : Decidable (FitsWindow abi su i) :=
  inferInstanceAs (Decidable (∀ o ∈ _, _))

/-- A readable event in a relaying state does not find `acked` ahead of `local_seq`,
unless it leaves no room when taken for a length. -/
def AckedBehind (s : Session) : Input → Prop
  | .socket e => s.state = .established ∨ s.state = .closeWait → e.ev.err = false →
      e.ev.inn = true →
      compareU32 s.acked s.localSeq ≤ 0 ∨ s.sendWindow ≤ s.acked
  | _ => True

instance (s : Session) : (i : Input) → Decidable (AckedBehind s i)
  | .packet _ _ | .socket _ | .monitor _ | .check _ => by unfold AckedBehind; infer_instance

/-- The invariant, over the fields it reads. -/
structure FlowAt (dest : Nat) (connectSent : ConnectSent) (st : State) (localSeq acked : U32)
    (u : Nat) : Prop where
  early : proxied dest → connectSent ≠ .established → u = 0
  fresh : st = .listen ∨ st = .synRecv → u = 0
  behind : st = .established ∨ st = .closeWait → u ≤ (localSeq - acked).toNat

abbrev Flow (s : Session) (u : Nat) : Prop :=
  FlowAt s.dest s.connectSent s.state s.localSeq s.acked u

section

variable {s : Session} {u : Nat}

theorem acknowledge_le (p : Packet) (s : Session) (u : Nat) : acknowledge p s u ≤ u := by
  unfold acknowledge
  split
  · exact Nat.min_le_left _ _
  · exact Nat.le_refl _

theorem acknowledge_le_of_ack {p : Packet} (hack : p.ack = true) (s : Session) (u : Nat) :
    acknowledge p s u ≤ (s.localSeq - p.ackSeq).toNat := by
  rw [acknowledge, if_pos hack]
  exact Nat.min_le_right _ _

theorem Flow.mono (h : Flow s u) {v : Nat} (hv : v ≤ u) : Flow s v :=
  ⟨fun hp hc => Nat.le_zero.mp (h.early hp hc ▸ hv), fun hst => Nat.le_zero.mp (h.fresh hst ▸ hv),
    fun hst => hv.trans (h.behind hst)⟩

/-- A session that relays nothing any more. -/
theorem Flow.leave (h : Flow s u) {st : State} {localSeq acked : U32}
    (hst : st.closed ∨ st = .finWait1 ∨ st = .lastAck) :
    FlowAt s.dest s.connectSent st localSeq acked u := by
  refine ⟨h.early, fun hl => ?_, fun hl => ?_⟩
  · rcases hst with (rfl | rfl) | rfl | rfl <;> simp at hl
  · rcases hst with (rfl | rfl) | rfl | rfl <;> simp at hl

theorem Flow.writeRst (h : Flow s u) (ok : Bool) : Flow (writeRst ok s).1 u := by
  refine writeRst_cases ok s (fun _ => ?_) (fun st _ hst _ => ?_)
  · exact h.leave (.inl closed_closing)
  · exact h.leave (.inl hst)

/-! ## The room -/

/-- The room and what `acked` leaves behind are the window. -/
theorem getSendWindow_add (h : compareU32 s.acked s.localSeq ≤ 0 ∨ s.sendWindow ≤ s.acked)
    (hroom : 0 < (getSendWindow s).toNat) :
    (s.localSeq - s.acked).toNat + (getSendWindow s).toNat = s.sendWindow.toNat := by
  unfold getSendWindow at hroom ⊢
  simp only at hroom ⊢
  have hbehind : (if compareU32 s.acked s.localSeq ≤ 0 then s.localSeq - s.acked else s.acked) =
      s.localSeq - s.acked := by
    by_cases hle : compareU32 s.acked s.localSeq ≤ 0
    · rw [if_pos hle]
    · have hfull := h.resolve_left hle
      rw [if_neg hle, if_neg (BitVec.not_lt.mpr hfull)] at hroom
      simp at hroom
  rw [hbehind] at hroom ⊢
  by_cases hlt : s.localSeq - s.acked < s.sendWindow
  · rw [if_pos hlt, BitVec.toNat_sub_of_le (BitVec.le_of_lt hlt)]
    have := BitVec.lt_def.mp hlt
    omega
  · rw [if_neg hlt] at hroom
    simp at hroom

/-- One read writes no more than there is room for. -/
theorem readSocket_offered (e : SocketEnv) (s : Session) :
    ∀ o ∈ (readSocket e s).2, o.offered ≤ (getSendWindow s).toNat := by
  unfold readSocket
  simp only
  split
  · split
    · split <;> simp [Tcp.writeRst, writeTcp]
    · unfold handleEof
      simp only
      split <;> simp [writeFinAck, writeOrClose, Tcp.writeRst, writeTcp]
    · rename_i bytes _ hrecv
      have hasked : bytes.length ≤ min (getSendWindow s).toNat s.mss := sockRecv_length hrecv
      simp only [writeData, writeOrClose, writeTcp, List.forall_mem_cons, List.not_mem_nil,
        false_imp_iff, implies_true, and_true, Out.offered, Nat.zero_le, true_and]
      omega
  · simp

/-! ## The phases -/

theorem handleFin_window (e : PacketEnv) (s : Session) :
    (handleFin e s).1.localSeq = s.localSeq ∧ (handleFin e s).1.acked = s.acked := by
  refine handleFin_cases e s ⟨rfl, rfl⟩ (fun _ _ => ⟨rfl, rfl⟩) ?_ ?_
  · rintro t rfl _ _
    exact ⟨rfl, rfl⟩
  · rintro t rfl _
    exact ⟨rfl, rfl⟩

theorem writeRst_window (ok : Bool) (s : Session) :
    (writeRst ok s).1.localSeq = s.localSeq ∧ (writeRst ok s).1.acked = s.acked :=
  writeRst_cases ok s (fun _ => ⟨rfl, rfl⟩) fun _ _ _ _ => ⟨rfl, rfl⟩

/-- Only the number of an acknowledgement is recorded. -/
theorem handleFlags_window (e : PacketEnv) (p : Packet) (s : Session) :
    (handleFlags e p s).1.localSeq = s.localSeq ∧
      ((handleFlags e p s).1.acked = s.acked ∨ p.ack = true ∧
        (handleFlags e p s).1.acked = p.ackSeq) := by
  unfold handleFlags
  split
  · exact ⟨rfl, .inl rfl⟩
  · split
    · split
      · exact ⟨rfl, .inl rfl⟩
      · split
        · exact ⟨(handleFin_window e s).1, .inl (handleFin_window e s).2⟩
        · split
          · rename_i hack
            exact ⟨rfl, .inr ⟨hack, rfl⟩⟩
          · exact ⟨rfl, .inl rfl⟩
    · rename_i hack
      unfold handleOtherAck
      split
      · exact ⟨rfl, .inl rfl⟩
      · split
        · split
          · exact ⟨rfl, .inl rfl⟩
          · exact ⟨rfl, .inr ⟨by simpa using fun h => hack (.inl h), rfl⟩⟩
        · exact ⟨(writeRst_window _ s).1, .inl (writeRst_window _ s).2⟩

/-- A session that relays behind a packet relayed before it, or was in SYN_RECV. -/
theorem handleFlags_relays (e : PacketEnv) (p : Packet) (s : Session)
    (h : (handleFlags e p s).1.state = .established ∨ (handleFlags e p s).1.state = .closeWait) :
    s.state = .synRecv ∨ s.state = .established ∨ s.state = .closeWait := by
  have hclosed {st : State} (hst : st.closed) : ¬ (st = .established ∨ st = .closeWait) := by
    rcases hst with rfl | rfl <;> simp
  revert h
  refine handleFlags_cases e p s .inr ?_ ?_ ?_ ?_ ?_
  · exact fun h => absurd h (hclosed closed_closing)
  · intro _ _ _ _
    refine handleFin_cases e s .inr (fun hst _ _ => .inr (.inl hst))
      (fun t _ hst _ _ => .inr (.inl hst)) ?_
    rintro t rfl _ h
    cases hok : e.tun.ack <;> simp [hok] at h
  · rintro st rfl _ h
    cases hst : s.state <;> simp [hst] at h ⊢
  · exact fun _ _ => .inr
  · exact fun _ _ h => absurd h (hclosed (writeRst_closed _ _))

theorem handleFlags_synRecv (e : PacketEnv) (p : Packet) (s : Session)
    (h : (handleFlags e p s).1.state = .synRecv) : s.state = .synRecv := by
  revert h
  refine handleFlags_cases e p s id (by simp) ?_ ?_ (fun _ _ => id) ?_
  · intro _ _ _ _
    refine handleFin_cases e s id (fun _ _ => by simp) ?_ ?_
    · rintro t rfl _ _
      cases e.tun.ack <;> simp
    · rintro t rfl _
      cases e.tun.ack <;> simp
  · rintro st rfl _ h
    cases hst : s.state <;> simp [hst] at h ⊢
  · intro _ _ h
    have hst := writeRst_closed e.tun.rst s
    simp [h] at hst

theorem handleFlags_flow (e : PacketEnv) (p : Packet) (h : Flow s u) :
    Flow (handleFlags e p s).1 (acknowledge p s u) := by
  have hstay := handleFlags_stays e p s
  obtain ⟨hlocal, hacked⟩ := handleFlags_window e p s
  have hle := h.mono (acknowledge_le p s u)
  refine ⟨fun hport hsent => hle.early (hstay.dest ▸ hport) (hstay.connectSent ▸ hsent),
    fun hst => ?_, fun hst => ?_⟩
  · exact hle.fresh (hst.imp hstay.listen (handleFlags_synRecv e p s))
  · rw [hlocal]
    rcases hacked with hacked | ⟨hack, hacked⟩
    · rw [hacked]
      rcases handleFlags_relays e p s hst with hsyn | hrel
      · exact (Nat.le_of_eq (hle.fresh (.inr hsyn))).trans (Nat.zero_le _)
      · exact hle.behind hrel
    · rw [hacked]
      exact acknowledge_le_of_ack hack s u

theorem handleSession_flow (e : PacketEnv) (p : Packet) (h : Flow s u) :
    Flow (handleSession e p s).1 (acknowledge p s u) := by
  have hle := h.mono (acknowledge_le p s u)
  refine handleSession_cases e p s ?_ ?_ ?_ ?_
  · exact fun _ => hle.writeRst _
  · rintro t w rfl _ _ _
    exact Flow.writeRst (s := { s with time := e.now, sendWindow := w }) hle e.tun.rst
  · rintro t w rfl _ _
    exact handleFlags_flow (s := { s with time := e.now, sendWindow := w }) e p h
  · rintro t w rfl _ _ _ _
    have hq : Flow (queueTcp p { s with time := e.now, sendWindow := w }) u := by
      simpa [Flow] using h
    have hflags := handleFlags_flow e p hq
    simpa [acknowledge] using hflags

theorem handleTcp_flow (abi : Abi) (e : PacketEnv) (p : Packet) (h : Flow s u) :
    Flow (handleTcp abi e p s).1 (acknowledge p s u) := by
  have hle := h.mono (acknowledge_le p s u)
  refine handleTcp_cases abi e p s ?_ ?_ ?_ ?_ ?_
  · exact fun _ => hle
  · rintro t host rfl _ _ _
    simpa [Flow] using hle
  · rintro t rfl _ _ _
    have hrst := Flow.writeRst (s := { s with hostname := packetHostname abi p s }) hle e.tun.rst
    simpa [Flow] using hrst
  · rintro t n rfl _ hport hsent _
    have hzero := hle.early hport (by simp [hsent])
    exact ⟨fun _ _ => hzero, fun _ => hzero, fun _ => hzero ▸ Nat.zero_le _⟩
  · rintro t host rfl _ _
    exact handleSession_flow (s := { s with hostname := host }) e p h

/-! ## The steps that write no payload -/

/-- The outputs carry no payload. -/
def Bare (outs : List Out) : Prop := ∀ o ∈ outs, o.offered = 0

theorem payload_le_offered (o : Out) : o.payload ≤ o.offered := by
  cases o with
  | tun st p w => cases w <;> simp
  | _ => simp

theorem Bare.cons {o : Out} {outs : List Out} (ho : o.offered = 0)
    (h : Bare outs) : Bare (o :: outs) :=
  List.forall_mem_cons.mpr ⟨ho, h⟩

theorem Bare.append {outs outs' : List Out} (h : Bare outs)
    (h' : Bare outs') : Bare (outs ++ outs') :=
  fun o ho => (List.mem_append.mp ho).elim (h o) (h' o)

theorem Bare.payload {outs : List Out} (h : Bare outs) : total Out.payload outs = 0 :=
  total_zero _ outs fun o ho => Nat.le_zero.mp (h o ho ▸ payload_le_offered o)

theorem writeRst_bare (ok : Bool) (s : Session) : Bare (writeRst ok s).2 := by
  simp [Bare, Tcp.writeRst, writeTcp]

theorem handleFlags_bare (e : PacketEnv) (p : Packet) (s : Session) :
    Bare (handleFlags e p s).2 := by
  refine handleFlags_cases e p s (by simp [Bare]) (by simp [Bare]) ?_ (by simp [Bare])
    (by simp [Bare]) ?_
  · intro _ _ _ _
    refine handleFin_cases e s ?_ ?_ ?_ ?_ <;> simp [Bare, writeTcp]
  · exact fun _ _ => writeRst_bare _ s

theorem handleTcp_bare (abi : Abi) (e : PacketEnv) (p : Packet) (s : Session) :
    Bare (handleTcp abi e p s).2 := by
  refine handleTcp_cases abi e p s (by simp [Bare]) (by simp [Bare]) ?_ (by simp [Bare]) ?_
  · exact fun t _ _ _ _ => (writeRst_bare _ t).cons rfl
  · intro t host _ _ _
    refine handleSession_cases e p t ?_ ?_ ?_ ?_
    · exact fun _ => writeRst_bare _ t
    · exact fun _ _ _ _ _ _ => writeRst_bare _ _
    · exact fun _ _ _ _ _ => handleFlags_bare e p _
    · exact fun _ _ _ _ _ _ _ => handleFlags_bare e p _

theorem monitor_bare (e : MonitorEnv) (s : Session) : Bare (monitorTcpSession e s).2.2 := by
  obtain ⟨_, _, -, _, _, -, -, houts⟩ := monitor_eq e s
  rcases houts with houts | ⟨-, houts⟩ <;> simp [Bare, houts, writeTcp]

theorem check_bare (e : CheckEnv) (s : Session) : Bare (checkTcpSession e s).2.2 := by
  have hclose : Bare (if 0 ≤ s.socket then [.close s.socket] else []) := by
    split <;> simp [Bare]
  refine checkTcpSession_cases e s (by simp [Bare]) (by simp [Bare]) ?_ ?_
  · exact fun _ _ _ _ _ _ => hclose
  · exact fun _ _ _ _ _ _ _ => hclose.cons rfl

/-! ## The event on the socket -/

/-- What the room and the invariant read, the state apart. -/
def Session.window (s : Session) : Nat × ConnectSent × U32 × U32 × U32 :=
  (s.dest, s.connectSent, s.localSeq, s.acked, s.sendWindow)

/-- The phases ahead of the read may close the session, and leave the rest. -/
structure SameWindow (s t : Session) : Prop where
  window : t.window = s.window
  state : t.state = s.state ∨ t.state = .closing

theorem SameWindow.flow {t : Session} (h : SameWindow s t) (hflow : Flow s u) : Flow t u := by
  obtain ⟨hdest, hsent, hlocal, hacked, -⟩ :
      t.dest = s.dest ∧ t.connectSent = s.connectSent ∧ t.localSeq = s.localSeq ∧
        t.acked = s.acked ∧
        t.sendWindow = s.sendWindow := by simpa [Session.window] using h.window
  rw [Flow, hdest, hsent, hlocal, hacked]
  rcases h.state with hst | hst
  · rw [hst]
    exact hflow
  · exact hflow.leave (.inl (hst ▸ closed_closing))

theorem forwardData_window (abi : Abi) (e : SocketEnv) (s : Session) :
    SameWindow s (forwardData abi e s).1 ∧ Bare (forwardData abi e s).2.2 := by
  refine forwardData_rule (fun _ t tr => SameWindow s t ∧ Bare tr) abi e s [] ?_ ?_
    ⟨⟨rfl, .inl rfl⟩, by simp [Bare]⟩
  · intro _ t tr h
    exact ⟨h.1, h.2.append (by simp [Bare])⟩
  · intro i _ t tr g q n hn h _ _ _ _
    exact ⟨⟨h.1.window, h.1.state⟩, h.2.append (by simp [Bare])⟩

theorem ackForwarded_window (e : SocketEnv) (fwd : Bool) {s t : Session} (h : SameWindow s t) :
    SameWindow s (ackForwarded e fwd t).1 ∧ Bare (ackForwarded e fwd t).2 := by
  have hack {v : Session} (hv : SameWindow s v) : SameWindow s (Tcp.acked e v) := by
    unfold Tcp.acked
    split
    · exact ⟨hv.window, hv.state⟩
    · exact ⟨hv.window, .inr rfl⟩
  refine ackForwarded_cases e fwd t ?_ ?_ ?_
  · exact fun _ => ⟨⟨h.window, h.state⟩, by simp [Bare]⟩
  · rintro v rfl _ _ _
    exact ⟨hack ⟨h.window, h.state⟩, by simp [Bare, writeTcp]⟩
  · rintro v rfl _ _
    exact ⟨hack ⟨h.window, h.state⟩, by simp [Bare, writeTcp]⟩

/-- The outputs fit the window `w` beside the `u` bytes on the way. -/
def Fits (w : U32) (u : Nat) (outs : List Out) : Prop :=
  ∀ o ∈ outs, o.offered ≠ 0 → u + o.offered ≤ w.toNat

theorem Bare.fits {outs : List Out} (h : Bare outs) (w : U32) (u : Nat) : Fits w u outs :=
  fun o ho hne => absurd (h o ho) hne

theorem Fits.append {outs outs' : List Out} {w : U32} (h : Fits w u outs) (h' : Fits w u outs') :
    Fits w u (outs ++ outs') :=
  fun o ho => (List.mem_append.mp ho).elim (h o) (h' o)

/-- A step that keeps the invariant and whose writes fit. -/
structure Sound (w : U32) (u : Nat) (r : Session × List Out) : Prop where
  fits : Fits w u r.2
  flow : Flow r.1 (u + total Out.payload r.2)

theorem Bare.sound {r : Session × List Out} (h : Bare r.2) (hflow : Flow r.1 u)
    (w : U32) : Sound w u r :=
  ⟨h.fits w u, by rwa [h.payload, Nat.add_zero]⟩

theorem handleEof_sound (e : SocketEnv) (hst : s.state = .established ∨ s.state = .closeWait)
    (h : Flow s u) :
    Bare (handleEof e s).2 ∧ Flow (handleEof e s).1 u := by
  refine handleEof_cases e s hst ?_ ?_ ?_
  · exact fun _ => ⟨by simp [Bare, writeTcp], h.leave (.inl closed_closing)⟩
  · refine fun _ _ => ⟨by simp [Bare, writeTcp], h.leave (.inr ?_)⟩
    rcases hst with hst | hst <;> simp [hst]
  · exact fun _ _ => ⟨by simp [Bare, writeTcp], h.leave (.inl closed_closing)⟩

theorem toNat_advance {a b : U32} {n : Nat} (h : (a - b).toNat + n < 2 ^ 32) :
    (a + BitVec.ofNat 32 n - b).toNat = (a - b).toNat + n := by
  rw [show a + BitVec.ofNat 32 n - b = (a - b) + BitVec.ofNat 32 n by grind, BitVec.toNat_add,
    BitVec.toNat_ofNat]
  omega

/-- The one write of payload is as long as the room at most. -/
theorem readSocket_sound (e : SocketEnv)
    (hbehind : s.state = .established ∨ s.state = .closeWait → e.ev.inn = true →
      compareU32 s.acked s.localSeq ≤ 0 ∨ s.sendWindow ≤ s.acked)
    (hearly : Early s) (h : Flow s u) : Sound s.sendWindow u (readSocket e s) := by
  by_cases hread : (s.state = .established ∨ s.state = .closeWait) ∧ e.ev.inn ∧ 0 < getSendWindow s
  · have hroom := getSendWindow_add (hbehind hread.1 hread.2.1) (BitVec.lt_def.mp hread.2.2)
    have hle := h.behind hread.1
    have hoffered := readSocket_offered e s
    refine ⟨fun o ho _ => ?_, ?_⟩
    · have := hoffered o ho
      omega
    · revert hoffered
      refine readSocket_cases e s ?_ ?_ ?_ ?_ ?_ ?_
      · exact fun _ => h
      · exact fun _ _ _ => h
      · intro _ _ _
        have hbare : Bare [.tun s.state (writeTcp s [] false false false true) e.tun.rst] := by
          simp [Bare, writeTcp]
        have hpaid :
          total Out.payload [.tun s.state (writeTcp s [] false false false true) e.tun.rst] = 0 :=
          hbare.payload
        rw [total_cons, hpaid]
        exact h.leave (.inl closed_closing)
      · intro _ hst _
        obtain ⟨hbare, hflow⟩ := handleEof_sound (s := { s with time := e.now }) e hst h
        have heof := (hbare.sound hflow s.sendWindow).flow
        simpa using heof
      · rintro _ bytes t hst _ _ rfl _ hoffered
        have hlen : bytes.length ≤ (getSendWindow s).toNat := by simpa [writeTcp] using hoffered
        have hwin := s.sendWindow.isLt
        have hnext := toNat_advance (a := s.localSeq) (b := s.acked) (n := bytes.length) (by omega)
        refine ⟨fun hport hsent => absurd (hearly.connected hst hport) hsent,
          fun hl => ?_, fun _ => ?_⟩
        · rcases hst with hst | hst <;> simp [hst] at hl
        · refine le_of_le_of_eq ?_ hnext.symm
          have hpaid := Nat.add_le_add_right hle bytes.length
          simpa [writeTcp] using hpaid
      · rintro _ bytes t hst _ rfl _ _
        have hclosed : FlowAt s.dest s.connectSent .closing s.localSeq s.acked u :=
          h.leave (.inl closed_closing)
        simpa [writeTcp] using hclosed
  · rw [show readSocket e s = (s, []) by rw [readSocket, if_neg hread]]
    exact Bare.sound (by simp [Bare]) h s.sendWindow

/-- The read behind the other phases, for the session before them. -/
theorem SameWindow.readSocket_sound {t : Session} (hsame : SameWindow s t) (e : SocketEnv)
    (hbehind : AckedBehind s (.socket e)) (herr : e.ev.err = false) (hearly : Early t)
    (h : Flow s u) :
    Sound s.sendWindow u (readSocket e t) := by
  obtain ⟨-, -, hlocal, hacked, hwindow⟩ :
      t.dest = s.dest ∧ t.connectSent = s.connectSent ∧ t.localSeq = s.localSeq ∧
        t.acked = s.acked ∧
        t.sendWindow = s.sendWindow := by simpa [Session.window] using hsame.window
  rw [← hwindow]
  refine Tcp.readSocket_sound e (fun hst hinn => ?_) hearly (hsame.flow h)
  rw [hlocal, hacked, hwindow]
  rcases hsame.state with hstay | hclosed
  · exact hbehind (hstay ▸ hst) herr hinn
  · simp [hclosed] at hst

theorem relay_sound (abi : Abi) (e : SocketEnv) (hbehind : AckedBehind s (.socket e))
    (herr : e.ev.err = false) (hearly : Early s) (h : Flow s u) :
    Sound s.sendWindow u (relay abi e s) := by
  obtain ⟨hsame, hforward⟩ := forwardData_window abi e s
  obtain ⟨hsame, hack⟩ := ackForwarded_window e (forwardData abi e s).2.1 hsame
  have hearly := ackForwarded_early e (forwardData abi e s).2.1 _ (forwardData_early abi e s hearly)
  have hread := hsame.readSocket_sound e hbehind herr hearly h
  have hquiet := hforward.append hack
  refine ⟨(hquiet.fits _ _).append hread.fits, ?_⟩
  show Flow _ (u + total Out.payload (_ ++ _))
  rw [total_append, hquiet.payload, Nat.zero_add]
  exact hread.flow

theorem checkTcpSocket_sound (abi : Abi) (e : SocketEnv) (hbehind : AckedBehind s (.socket e))
    (hearly : Early s) (h : Flow s u) : Sound s.sendWindow u (checkTcpSocket abi e s) := by
  refine checkTcpSocket_cases abi e s ?_ ?_ ?_ ?_
  · exact fun _ => (writeRst_bare _ _).sound (Flow.writeRst (s := { s with time := e.now }) h _) _
  · intro _ hst _
    have hzero := h.fresh (.inl hst)
    subst hzero
    have hflow := h.writeRst e.tun.rst
    refine readReply_cases e s hst ?_ ?_ ?_
    · exact fun _ _ => Bare.sound (r := (_, _ :: _)) ((writeRst_bare _ s).cons rfl) hflow _
    · exact fun _ _ _ => Bare.sound (r := (_, _ :: _)) ((writeRst_bare _ s).cons rfl) hflow _
    · intro _ _ _
      refine Bare.sound ?_ ⟨fun _ _ => rfl, fun _ => rfl, fun _ => Nat.zero_le _⟩ _
      simp [Bare, drained]
  · intro _ hst _
    have hzero := h.fresh (.inl hst)
    subst hzero
    refine handshake_cases e s hst ?_ ?_
    · rintro t rfl
      exact Bare.sound (by simp [Bare, writeTcp])
        ⟨fun _ _ => rfl, fun _ => rfl, fun _ => Nat.zero_le _⟩ _
    · rintro t rfl
      exact Bare.sound (by simp [Bare, writeTcp])
        ⟨fun _ _ => rfl, fun _ => rfl, fun _ => Nat.zero_le _⟩ _
  · exact fun herr _ => relay_sound abi e hbehind herr hearly h

theorem monitor_flow (e : MonitorEnv) (h : Flow s u) : Flow (monitorTcpSession e s).1 u := by
  obtain ⟨t, ev, ht, ms, st, rfl, hst, -⟩ := monitor_eq e s
  rw [ht]
  rcases hst with rfl | rfl
  · exact h
  · exact h.leave (.inl closed_closing)

theorem check_flow (e : CheckEnv) (h : Flow s u) : Flow (checkTcpSession e s).1 u := by
  refine checkTcpSession_cases e s ?_ ?_ ?_ ?_
  · exact fun _ => h
  · exact fun _ _ => h
  · rintro fd del t rfl _ _
    exact h.leave (.inl closed_close)
  · rintro fd del t rfl _ _ _
    exact h.leave (.inl closed_close)

end

/-! ## Runs -/

theorem step_sound (abi : Abi) (su : Session × Nat) (i : Input) (h : Early su.1 ∧ Flow su.1 su.2)
    (hbehind : AckedBehind su.1 i) :
    FitsWindow abi su i ∧ Early (counted abi su i).1.1 ∧
    Flow (counted abi su i).1.1 (counted abi su i).1.2 := by
  obtain ⟨s, u⟩ := su
  obtain ⟨hearly, hflow⟩ := h
  have hnext := step_early abi s i hearly
  cases i with
  | packet e p =>
    have hsound := (handleTcp_bare abi e p s).sound (handleTcp_flow abi e p hflow) s.sendWindow
    exact ⟨(handleTcp_bare abi e p s).fits _ _, hnext, hsound.flow⟩
  | socket e =>
    have hsound := checkTcpSocket_sound abi e hbehind hearly hflow
    exact ⟨hsound.fits, hnext, hsound.flow⟩
  | monitor e =>
    have hsound : Sound s.sendWindow u (step abi s (.monitor e)) := by
      simp only [step]
      split
      · exact Bare.sound (monitor_bare e s) (monitor_flow e hflow) s.sendWindow
      · exact Bare.sound (by simp [Bare]) hflow _
    exact ⟨hsound.fits, hnext, hsound.flow⟩
  | check e =>
    have hsound :=
      (check_bare e s).sound (r := step abi s (.check e)) (check_flow e hflow) s.sendWindow
    exact ⟨hsound.fits, hnext, hsound.flow⟩

/-- What is on the way to the client never exceeds its window, as far as the room is
computed from an `acked` that is behind `local_seq`. -/
theorem run_fits_window (abi : Abi) (e : SynEnv) (p : Packet) (is : List Input)
    (h : Along (step abi) AckedBehind (newSession e p) is) :
    Along (counted abi) (FitsWindow abi) (newSession e p, 0) is := by
  have hcounted : Along (counted abi) (fun su i => AckedBehind su.1 i) (newSession e p, 0) is :=
    (along_proj (step abi) (counted abi) Prod.fst (fun _ _ => rfl) AckedBehind _ is).mpr h
  refine along_of_invariant (counted abi) _ (FitsWindow abi) (fun su => Early su.1 ∧ Flow su.1 su.2)
    (fun su i hsu hi => step_sound abi su i hsu hi) is _ ⟨newSession_early e p, ?_⟩ hcounted
  exact ⟨fun _ _ => rfl, fun _ => rfl, fun _ => Nat.zero_le _⟩

/-- To port 443 with a small initial sequence number, and to any other port once the
client has acknowledged the handshake, `acked` is behind `local_seq`. -/
theorem run_fits_window_after_ack :
    Along (counted .arm64V8a) (FitsWindow .arm64V8a) (newSession (plainSyn 22) (synPacket []), 0)
      [.socket writable, .monitor plainMonitor, .packet plainEnv (plainPacket 1001 5001 []),
        .monitor plainMonitor, .socket (readable (List.replicate 100 7)),
        .socket (readable (List.replicate 100 8)), .packet plainEnv (plainPacket 1001 5101 [])] :=
  run_fits_window .arm64V8a _ _ _ (by decide +kernel)

/-- The same SYN, with an initial sequence number at the edge and a window of 100 bytes. -/
def highSyn : SynEnv := { plainSyn 443 with rand := 0x7FFFFFFF }

def narrowSyn : Packet := { synPacket [] with window := 100 }

/-- No acknowledgement is recorded before the proxy's reply: `acked` is 0, compares as ahead
of `local_seq`, and the room stays the whole window. -/
theorem window_overrun :
    ¬ Along (counted .arm64V8a) (FitsWindow .arm64V8a) (newSession highSyn narrowSyn, 0)
      [.socket writable, .packet plainEnv { plainPacket 1001 0x80000000 [] with window := 100 },
        .monitor plainMonitor, .socket (readable (ascii "HTTP/1.0 200")), .monitor plainMonitor,
        .socket (readable (List.replicate 80 7)), .socket (readable (List.replicate 80 8))] := by
  decide +kernel

end PdaNetClient.Tcp
