import PdaNetClient.TcpReassembly
import PdaNetClient.TcpRepeat

/-!
# Window arithmetic

The window scale is a byte of the client's SYN that nothing checks. It shifts 32-bit numbers in
three functions, and with the socket's figures and the queue it makes the window that the client is
offered. What is offered is compared with `<` where it is forwarded.
-/
namespace PdaNetClient.Tcp

open Http Runs

set_option autoImplicit false

/-! ## The receive window as a number -/

/-- The figures of a socket are values of an `int`. -/
def SockBuf.IsInt (b : SockBuf) : Prop :=
  -2 ^ 31 ≤ b.sendbuf ∧ b.sendbuf < 2 ^ 31 ∧ -2 ^ 31 ≤ b.unsent ∧ b.unsent < 2 ^ 31

instance (b : SockBuf) : Decidable b.IsInt := inferInstanceAs (Decidable (_ ∧ _))

theorem getReceiveBuffer_bounds (socket : Int) {b : SockBuf} (h : b.IsInt) :
    0 ≤ getReceiveBuffer socket b ∧ getReceiveBuffer socket b < 2 ^ 32 := by
  obtain ⟨hlow, hhigh, hunsentLow, hunsentHigh⟩ := h
  have hhalf : Int.tdiv 16384 2 = 8192 := by decide
  have hbelow : b.sendbuf.tdiv 2 < 2 ^ 30 := by
    have hsign : Int.sign 2 = 1 := rfl
    rw [Int.tdiv_eq_ediv, hsign]
    split <;> omega
  unfold getReceiveBuffer
  split
  · omega
  · simp only
    split
    · split <;> omega
    · split <;> omega

theorem receiveBuffer_toNat (socket : Int) {b : SockBuf} (h : b.IsInt) :
    (receiveBuffer socket b).toNat = (getReceiveBuffer socket b).toNat := by
  have hbounds := getReceiveBuffer_bounds socket h
  rw [receiveBuffer, BitVec.toNat_ofInt]
  omega

theorem toForward_toNat (q : List Segment) : (toForward q).toNat = unsent q % 2 ^ 32 := by
  induction q with
  | nil => rfl
  | cons g q ih =>
    have hcons : toForward (g :: q) = BitVec.ofNat 32 (g.len - g.sent) + toForward q := by
      simp [toForward]
    rw [hcons, unsent_cons, BitVec.toNat_add, ih, BitVec.toNat_ofNat]
    omega

/-- The room in the socket, cut to what the scale can express. -/
def room (s : Session) (b : SockBuf) : Nat :=
  min (getReceiveBuffer s.socket b).toNat (0xFFFF * 2 ^ s.recvScale % 2 ^ 32)

theorem shiftRight_eq_zero {x : U32} {n : Nat} : x >>> n = 0 ↔ x.toNat < 2 ^ n := by
  have hpos : 0 < 2 ^ n := Nat.two_pow_pos n
  rw [← BitVec.toNat_inj, BitVec.toNat_ushiftRight, Nat.shiftRight_eq_div_pow]
  show x.toNat / 2 ^ n = 0 ↔ _
  rw [Nat.div_eq_zero_iff_lt hpos]

theorem shiftLeft_toNat (x : U32) (n : Nat) : (x <<< n).toNat = x.toNat * 2 ^ n % 2 ^ 32 := by
  rw [BitVec.toNat_shiftLeft, Nat.shiftLeft_eq]

/-- The value of `window` before it is compared with one unit of the scale. -/
theorem clamped_toNat (x max q : U32) :
    (if q < (if x > max then max else x) then (if x > max then max else x) - q else 0).toNat =
      min x.toNat max.toNat - q.toNat := by
  have hmin : (if x > max then max else x).toNat = min x.toNat max.toNat := by
    split
    · rename_i h
      have h := BitVec.lt_def.mp h
      omega
    · rename_i h
      have h := mt BitVec.lt_def.mpr h
      omega
  generalize (if x > max then max else x) = y at hmin ⊢
  rw [← hmin]
  split
  · rename_i h
    exact BitVec.toNat_sub_of_le (BitVec.le_of_lt h)
  · rename_i h
    have h := mt BitVec.lt_def.mpr h
    show 0 = _
    omega

theorem getReceiveWindow_toNat (s : Session) {b : SockBuf} (h : b.IsInt) :
    (getReceiveWindow s b).toNat =
      if room s b < unsent s.forward % 2 ^ 32 + 2 ^ s.recvScale then 0 else room s b -
        unsent s.forward % 2 ^ 32 := by
  have hroom :
      min (receiveBuffer s.socket b).toNat ((0xFFFF : U32) <<< s.recvScale).toNat = room s b := by
    rw [receiveBuffer_toNat s.socket h, shiftLeft_toNat]
    rfl
  have hvalue :=
    clamped_toNat (receiveBuffer s.socket b) ((0xFFFF : U32) <<< s.recvScale) (toForward s.forward)
  rw [hroom, toForward_toNat] at hvalue
  have hunit : 0 < 2 ^ s.recvScale := Nat.two_pow_pos _
  unfold getReceiveWindow
  simp only [shiftRight_eq_zero, hvalue]
  by_cases hsmall : room s b - unsent s.forward % 2 ^ 32 < 2 ^ s.recvScale
  · rw [if_pos hsmall, if_pos (by omega)]
    rfl
  · rw [if_neg hsmall, hvalue, if_neg (by omega)]

/-! ## What is offered and what is forwarded -/

/-- Half of the send buffer, as a socket without unsent data has it. -/
def halfBuffer (sendbuf : Int) : Nat := ((if sendbuf = 0 then 16384 else sendbuf).tdiv 2).toNat

/-- The window of a session with nothing queued, while the socket has nothing unsent. -/
def offered (s : Session) (sendbuf : Int) : Nat :=
  (getReceiveWindow { s with forward := [] } ⟨sendbuf, 0⟩).toNat

/-- What the client makes of that window: the field of the header, shifted back. -/
def heard (s : Session) (sendbuf : Int) : Nat :=
  ((getReceiveWindow { s with forward := [] } ⟨sendbuf, 0⟩ >>> s.recvScale).setWidth 16).toNat *
    2 ^ s.recvScale

/-- The head `g` of the queue satisfies the guard, the monitor waits for the socket to be writable,
and when it is, something is sent. -/
structure Taken (abi : Abi) (s : Session) (g : Segment) (b : SockBuf) : Prop where
  guard : canForward s g (receiveBuffer s.socket b)
  armed : ∀ e : MonitorEnv, e.sndbuf = b → (monitorTcpSession e s).1.ev.out = true
  sent : ∀ e : SocketEnv, e.sndbuf = b → e.ev.out = true → (forwardData abi e s).2.2 ≠ []

/-- Every segment in order of at most `w` bytes is taken from the head of the queue, while the
socket has nothing unsent. -/
def Forwardable (abi : Abi) (s : Session) (sendbuf : Int) (w : Nat) : Prop :=
  ∀ (g : Segment) (q : List Segment), g.seq + BitVec.ofNat 32 g.sent = s.remoteSeq →
    1 ≤ g.len - g.sent → g.len - g.sent ≤ w → Taken abi { s with forward := g :: q } g ⟨sendbuf, 0⟩

theorem getReceiveBuffer_idle {socket : Int} (h : 0 ≤ socket) (sendbuf : Int) :
    (getReceiveBuffer socket ⟨sendbuf, 0⟩).toNat = halfBuffer sendbuf := by
  unfold getReceiveBuffer halfBuffer
  rw [if_neg (by omega)]
  simp only
  split <;> omega

theorem monitor_ev (e : MonitorEnv) (s : Session) :
    (monitorTcpSession e s).1.ev = (monitorEvents e s).2.2.1 := by
  unfold monitorTcpSession
  simp only
  split
  · rfl
  · rename_i hsame
    exact (not_ne_iff.mp hsame).symm

theorem monitor_armed (e : MonitorEnv) {s : Session} {g : Segment} {q : List Segment}
    (hst : s.state = .established ∨ s.state = .closeWait) (hq : s.forward = g :: q) :
    (monitorTcpSession e s).1.ev.out =
      decide (canForward s g (receiveBuffer s.socket e.sndbuf)) := by
  rw [monitor_ev, monitorEvents_relay e hst]
  unfold relayEvents
  cases decide (0 < getSendWindow s)
  · obtain ⟨ms, st, hkeep, -, -⟩ := keepAlive_kept e s hst
    simp only [Bool.false_eq_true, if_false, hkeep, hq]
    rfl
  · simp only [if_true, hq]

theorem sendHead_outs (abi : Abi) (rstOk : Bool) (res : SendResult) (after : Memory) (s : Session)
    (g : Segment) (q : List Segment) (fwd : Bool) :
    (sendHead abi rstOk res after s g q fwd).outs ≠ [] := by
  refine sendHead_cases abi rstOk res after s g q fwd ?_ ?_
  · exact fun _ => List.cons_ne_nil _ _
  · exact fun _ _ _ => List.cons_ne_nil _ _

theorem forwardData_offers (abi : Abi) {e : SocketEnv} {s : Session} {g : Segment}
    {q : List Segment} (hout : e.ev.out = true) (hq : s.forward = g :: q)
    (hcan : canForward s g (receiveBuffer s.socket e.sndbuf)) :
    (forwardData abi e s).2.2 ≠ [] := by
  have hsend := sendHead_outs abi e.tun.rst (e.sends 0) (e.after 0) s g q false
  rw [forwardData, if_pos hout, hq, forwardLoop, if_pos hcan]
  simp only
  split
  · exact fun h => hsend (List.append_eq_nil_iff.mp h).1
  · exact hsend

/-- The guard decides. -/
theorem taken_iff (abi : Abi) {s : Session} {g : Segment} {q : List Segment} {b : SockBuf}
    (hst : s.state = .established ∨ s.state = .closeWait) (hq : s.forward = g :: q) :
    Taken abi s g b ↔ canForward s g (receiveBuffer s.socket b) := by
  constructor
  · exact fun h => h.guard
  · intro hcan
    refine ⟨hcan, ?_, ?_⟩
    · rintro e rfl
      rw [monitor_armed e hst hq]
      exact decide_eq_true hcan
    · rintro e rfl hout
      exact forwardData_offers abi hout hq hcan

/-- A segment of `n` bytes that is next in order, nothing of it sent. -/
def nextSegment (seq : U32) (n : Nat) (h : n < 2 ^ 16) : Segment where
  seq := seq
  psh := true
  data := ⟨List.replicate n 0, by rwa [List.length_replicate]⟩
  sent := 0
  sent_le := Nat.zero_le _

theorem nextSegment_len (seq : U32) (n : Nat) (h : n < 2 ^ 16) : (nextSegment seq n h).len = n :=
  List.length_replicate

section idle

variable {s : Session} {sendbuf : Int}

theorem canForward_idle (hint : -2 ^ 31 ≤ sendbuf ∧ sendbuf < 2 ^ 31) (hsock : 0 ≤ s.socket)
    {g : Segment} {q : List Segment} (hseq : g.seq + BitVec.ofNat 32 g.sent = s.remoteSeq) :
    canForward { s with forward := g :: q } g (receiveBuffer s.socket ⟨sendbuf, 0⟩) ↔
      g.len - g.sent < halfBuffer sendbuf := by
  have hbuffer : (receiveBuffer s.socket ⟨sendbuf, 0⟩).toNat = halfBuffer sendbuf := by
    rw [receiveBuffer_toNat s.socket ⟨hint.1, hint.2, by simp, by simp⟩,
      getReceiveBuffer_idle hsock]
  have hlen := g.len_lt
  unfold canForward
  rw [BitVec.lt_def, hbuffer, BitVec.toNat_ofNat, Nat.mod_eq_of_lt (by omega)]
  exact and_iff_right hseq

/-- A segment as long as half the buffer is refused; every shorter one is taken. -/
theorem forwardable_iff (abi : Abi) (hint : -2 ^ 31 ≤ sendbuf ∧ sendbuf < 2 ^ 31)
    (hsock : 0 ≤ s.socket) (hst : s.state = .established ∨ s.state = .closeWait) (w : Nat) :
    Forwardable abi s sendbuf w ↔ w < max (halfBuffer sendbuf) 1 ∨ 65535 < halfBuffer sendbuf := by
  constructor
  · intro h
    by_contra hfit
    have hlt : max (halfBuffer sendbuf) 1 < 2 ^ 16 := by omega
    have hlen := nextSegment_len s.remoteSeq _ hlt
    have hunsent : (nextSegment s.remoteSeq _ hlt).len - (nextSegment s.remoteSeq _ hlt).sent =
        max (halfBuffer sendbuf) 1 := by
      rw [hlen]
      rfl
    have hseq : (nextSegment s.remoteSeq _ hlt).seq +
        BitVec.ofNat 32 (nextSegment s.remoteSeq _ hlt).sent = s.remoteSeq :=
      BitVec.add_zero _
    have htaken := h (nextSegment s.remoteSeq _ hlt) [] hseq (by omega) (by omega)
    have hroom := (canForward_idle hint hsock hseq).mp htaken.guard
    omega
  · intro hfit g q hseq hpos hw
    have hlen := g.len_lt
    have hroom := (canForward_idle (q := q) hint hsock hseq).mpr (by omega)
    exact (taken_iff abi (s := { s with forward := g :: q }) hst rfl).mpr hroom

theorem offered_eq (hint : -2 ^ 31 ≤ sendbuf ∧ sendbuf < 2 ^ 31) (hsock : 0 ≤ s.socket)
    (hscale : s.recvScale ≤ 14) :
    offered s sendbuf =
      if min (halfBuffer sendbuf) (65535 * 2 ^ s.recvScale) < 2 ^ s.recvScale then 0
      else min (halfBuffer sendbuf) (65535 * 2 ^ s.recvScale) := by
  have hpow : 2 ^ s.recvScale ≤ 2 ^ 14 := Nat.pow_le_pow_right (by decide) hscale
  have hroom : room { s with forward := [] } ⟨sendbuf, 0⟩ =
      min (halfBuffer sendbuf) (65535 * 2 ^ s.recvScale) := by
    have hmax : 0xFFFF * 2 ^ s.recvScale < 2 ^ 32 := by omega
    show min (getReceiveBuffer s.socket ⟨sendbuf, 0⟩).toNat (0xFFFF * 2 ^ s.recvScale % 2 ^ 32) = _
    rw [getReceiveBuffer_idle hsock, Nat.mod_eq_of_lt hmax]
  rw [offered, getReceiveWindow_toNat _ ⟨hint.1, hint.2, by simp, by simp⟩, hroom]
  simp [unsent]

theorem heard_eq (hint : -2 ^ 31 ≤ sendbuf ∧ sendbuf < 2 ^ 31) (hsock : 0 ≤ s.socket)
    (hscale : s.recvScale ≤ 14) :
    heard s sendbuf = offered s sendbuf / 2 ^ s.recvScale * 2 ^ s.recvScale := by
  have hpos : 0 < 2 ^ s.recvScale := Nat.two_pow_pos _
  have hle : offered s sendbuf ≤ 65535 * 2 ^ s.recvScale := by
    rw [offered_eq hint hsock hscale]
    split <;> omega
  have hfield : offered s sendbuf / 2 ^ s.recvScale < 2 ^ 16 := by
    rw [Nat.div_lt_iff_lt_mul hpos]
    omega
  unfold heard
  rw [BitVec.toNat_setWidth, BitVec.toNat_ushiftRight, Nat.shiftRight_eq_div_pow]
  show offered s sendbuf / 2 ^ s.recvScale % 2 ^ 16 * _ = _
  rw [Nat.mod_eq_of_lt hfield]

/-- Rounding down to a unit of the scale changes a number unless it is a multiple of the unit. -/
theorem rounded_lt_iff {n k : Nat} : n / k * k < n ↔ ¬ k ∣ n := by
  have hround := Nat.div_mul_le_self n k
  constructor
  · intro hlt hdvd
    rw [Nat.div_mul_cancel hdvd] at hlt
    exact lt_irrefl n hlt
  · intro hnot
    apply lt_of_le_of_ne hround
    intro heq
    exact hnot (Dvd.intro_left _ heq)

/-- Without unsent data a window is kept exactly when half the buffer is no window: more than any
segment has, or less than a unit of the scale. The client rounds down to that unit, and half a
buffer that is no multiple of it is never asked for. -/
theorem window_forwardable_iff (abi : Abi) (hint : -2 ^ 31 ≤ sendbuf ∧ sendbuf < 2 ^ 31)
    (hsock : 0 ≤ s.socket) (hst : s.state = .established ∨ s.state = .closeWait)
    (hscale : s.recvScale ≤ 14) :
    (Forwardable abi s sendbuf (offered s sendbuf) ↔
      ¬ (2 ^ s.recvScale ≤ halfBuffer sendbuf ∧ halfBuffer sendbuf ≤ 65535)) ∧
    (Forwardable abi s sendbuf (heard s sendbuf) ↔
      ¬ (0 < halfBuffer sendbuf ∧ halfBuffer sendbuf ≤ 65535 ∧
        2 ^ s.recvScale ∣ halfBuffer sendbuf)) := by
  have hpos : 0 < 2 ^ s.recvScale := Nat.two_pow_pos _
  rw [forwardable_iff abi hint hsock hst, forwardable_iff abi hint hsock hst,
    heard_eq hint hsock hscale, offered_eq hint hsock hscale]
  by_cases hlarge : 65535 < halfBuffer sendbuf
  · constructor
    · exact iff_of_true (.inr hlarge) (by omega)
    · exact iff_of_true (.inr hlarge) (by omega)
  have hmin : min (halfBuffer sendbuf) (65535 * 2 ^ s.recvScale) = halfBuffer sendbuf := by
    apply min_eq_left
    have hunit : 65535 * 1 ≤ 65535 * 2 ^ s.recvScale := Nat.mul_le_mul_left _ hpos
    omega
  rw [hmin]
  split
  · rename_i hsmall
    constructor
    · exact iff_of_true (by omega) (by omega)
    · refine iff_of_true ?_ ?_
      · rw [Nat.zero_div, Nat.zero_mul]
        omega
      · rintro ⟨hhalf, -, hdvd⟩
        have hle := Nat.le_of_dvd hhalf hdvd
        omega
  · rename_i hunit
    have hmax : max (halfBuffer sendbuf) 1 = halfBuffer sendbuf := max_eq_left (by omega)
    rw [hmax]
    constructor
    · exact iff_of_false (by omega) (by omega)
    · rw [or_iff_left hlarge, rounded_lt_iff]
      exact not_congr ⟨fun hdvd => ⟨by omega, by omega, hdvd⟩, fun h => h.2.2⟩

end idle

/-- A connection to port 22 after the handshake; the scale is 0. -/
def handshaken : Session :=
  (run (step .arm64V8a) (newSession (plainSyn 22) (synPacket []))
    [.socket writable, .packet plainEnv (plainPacket 1001 5001 [])]).1

theorem window_forwardable_large :
    Forwardable .arm64V8a handshaken 262144 (offered handshaken 262144) ∧
      Forwardable .arm64V8a handshaken 262144 (heard handshaken 262144) := by
  have hint : -2 ^ 31 ≤ (262144 : Int) ∧ (262144 : Int) < 2 ^ 31 := by decide
  have hwindow :=
    window_forwardable_iff (s := handshaken) .arm64V8a hint (by decide +kernel) (by decide +kernel)
    (by decide +kernel)
  exact ⟨hwindow.1.mpr (by decide +kernel), hwindow.2.mpr (by decide +kernel)⟩

/-- With a send buffer of 4608 the client may send 2304 bytes. A segment of 2304 bytes is queued in
order; no monitor pass waits for the socket to be writable, and when it is, nothing is sent. -/
theorem window_not_forwardable :
    let t :=
  (step .arm64V8a handshaken (.packet plainEnv (plainPacket 1001 5001 (List.replicate 2304 0)))).1
    offered handshaken 4608 = 2304 ∧ heard handshaken 4608 = 2304 ∧
    ¬ Forwardable .arm64V8a handshaken 4608 2304 ∧
      t.forward.map Segment.len = [2304] ∧
      (monitorTcpSession { plainMonitor with sndbuf := ⟨4608, 0⟩ } t).1.ev.out = false ∧
      (forwardData .arm64V8a { writable with sndbuf := ⟨4608, 0⟩ } t).2.2 = [] := by
  refine ⟨by decide +kernel, by decide +kernel,
    ?_, by decide +kernel, by decide +kernel, by decide +kernel⟩
  rw [forwardable_iff .arm64V8a (by decide) (by decide +kernel) (by decide +kernel)]
  decide +kernel

/-! ## The scale -/

theorem getReceiveWindow_le (s : Session) (b : SockBuf) :
    (getReceiveWindow s b).toNat ≤ 0xFFFF * 2 ^ s.recvScale := by
  have hvalue :=
    clamped_toNat (receiveBuffer s.socket b) ((0xFFFF : U32) <<< s.recvScale) (toForward s.forward)
  have hmax : ((0xFFFF : U32) <<< s.recvScale).toNat ≤ 0xFFFF * 2 ^ s.recvScale := by
    rw [shiftLeft_toNat]
    exact Nat.mod_le _ _
  have hcut (c : Prop) [Decidable c] (x : U32) : (if c then 0 else x).toNat ≤ x.toNat := by
    split
    · exact Nat.zero_le _
    · exact le_rfl
  unfold getReceiveWindow
  exact (hcut _ _).trans (by omega)

theorem getReceiveWindow_field (s : Session) (b : SockBuf) :
    (getReceiveWindow s b >>> s.recvScale).toNat < 2 ^ 16 := by
  have hle := getReceiveWindow_le s b
  rw [BitVec.toNat_ushiftRight, Nat.shiftRight_eq_div_pow,
    Nat.div_lt_iff_lt_mul (Nat.two_pow_pos _)]
  have hpos : 0 < 2 ^ s.recvScale := Nat.two_pow_pos _
  omega

/-- The SYN gave both scales, and the window offered fits the header. -/
structure Scaled (ws : Nat) (s : Session) : Prop where
  recv : s.recvScale = ws
  send : s.sendScale = ws
  field : (s.recvWindow >>> s.recvScale).toNat < 2 ^ 16

theorem newSession_scaled (e : SynEnv) (p : Packet) : Scaled e.ws (newSession e p) := by
  refine ⟨rfl, rfl, ?_⟩
  unfold newSession
  exact getReceiveWindow_field _ e.sndbuf

theorem step_scaled (abi : Abi) {ws : Nat} {s : Session} (i : Input) (h : Scaled ws s) :
    Scaled ws (step abi s i).1 := by
  have hnegotiated := step_negotiated abi s i
  simp only [Session.negotiated, Prod.mk.injEq] at hnegotiated
  obtain ⟨-, hrecv, hsend⟩ := hnegotiated
  refine ⟨hrecv.trans h.recv, hsend.trans h.send, ?_⟩
  rw [hrecv]
  rcases step_steady abi s i with hsame | ⟨t, b, hfrozen, hnew⟩
  · have hwindow : (step abi s i).1.recvWindow = s.recvWindow := congrArg Prod.snd hsame
    rw [hwindow]
    exact h.field
  · have hwindow : (step abi s i).1.recvWindow = getReceiveWindow t b := congrArg Prod.snd hnew
    have hscale : t.recvScale = s.recvScale := congrArg (fun f => f.2.2.1) hfrozen
    rw [hwindow, ← hscale]
    exact getReceiveWindow_field t b

theorem run_scaled (abi : Abi) (e : SynEnv) (p : Packet) (is : List Input) :
    Scaled e.ws (run (step abi) (newSession e p) is).1 :=
  run_invariant (step abi) (fun _ _ => True) (fun s _ => Scaled e.ws s)
    (fun _ _ i h _ => step_scaled abi i h) is _
    (newSession_scaled e p) (along_of_forall _ _ _ fun _ _ => trivial)

/-- The packet reaches a session that is not closed, past the proxy handshake, and its window is
taken. -/
def TakesWindow (s : Session) (p : Packet) : Prop :=
  p.urg = false ∧ (proxied s.dest → s.connectSent = .established) ∧ ¬ s.state.closed

instance (s : Session) (p : Packet) : Decidable (TakesWindow s p) :=
  inferInstanceAs (Decidable (_ ∧ _))

theorem handleSession_sendWindow (e : PacketEnv) (p : Packet) {s : Session} (h : ¬ s.state.closed) :
    (handleSession e p s).1.sendWindow = p.window.setWidth 32 <<< s.sendScale := by
  unfold handleSession
  rw [if_neg h]
  simp only
  split
  · exact ((handleFlags_commutes e p).keeps _).2.1
  · split
    · exact ((writeRst_commutes e.tun.rst).keeps _).2.1
    · split
      · exact ((writeRst_commutes e.tun.rst).keeps _).2.1
      · exact ((queuedFlags_commutes e p).keeps _).2.1

theorem handleTcp_sendWindow (abi : Abi) (e : PacketEnv) {p : Packet} {s : Session}
    (h : TakesWindow s p) :
    (handleTcp abi e p s).1.sendWindow = p.window.setWidth 32 <<< s.sendScale := by
  obtain ⟨hurg, hpast, hopen⟩ := h
  by_cases hport : proxied s.dest
  · rw [handleTcp_tunnel abi e hurg hport (hpast hport)]
    exact handleSession_sendWindow e p hopen
  · rw [handleTcp_plain_port abi e hurg hport]
    exact handleSession_sendWindow e p hopen

/-- A window is shifted without loss exactly if the product is a 32-bit number. -/
theorem shifted_exact_iff (w : BitVec 16) (n : Nat) :
    ((w.setWidth 32 : U32) <<< n).toNat = w.toNat * 2 ^ n ↔ w.toNat * 2 ^ n < 2 ^ 32 := by
  have hwiden : (w.setWidth 32).toNat = w.toNat := by
    rw [BitVec.toNat_setWidth]
    have hlt := w.isLt
    omega
  rw [shiftLeft_toNat, hwiden]
  exact Nat.mod_eq_iff_lt (by decide)

/-- The window offered and the bytes queued fit the socket, unless the count of the bytes wrapped
around and still left a window. -/
theorem getReceiveWindow_fits_iff (s : Session) {b : SockBuf} (h : b.IsInt) :
    (getReceiveWindow s b = 0 ∨ (getReceiveWindow s b).toNat + unsent s.forward ≤
      (getReceiveBuffer s.socket b).toNat) ↔
      unsent s.forward < 2 ^ 32 ∨ room s b < unsent s.forward % 2 ^ 32 + 2 ^ s.recvScale := by
  have hvalue := getReceiveWindow_toNat s h
  have hunit : 0 < 2 ^ s.recvScale := Nat.two_pow_pos _
  have hbuffer := (getReceiveBuffer_bounds s.socket h).2
  have hroom : room s b ≤ (getReceiveBuffer s.socket b).toNat := Nat.min_le_left _ _
  rw [← BitVec.toNat_inj, hvalue]
  show _ = 0 ∨ _ ↔ _
  split
  · rename_i hfull
    exact iff_of_true (.inl rfl) (.inr hfull)
  · constructor
    · intro hfits
      omega
    · intro hfits
      omega

/-- The arithmetic of a session whose SYN was `p`: no shift reaches the width of the type, the
windows of the SYN and of a later packet `q` are taken without loss, what is offered fits the
header, and together with a queue it fits the socket. -/
structure ScaleSound (abi : Abi) (e : SynEnv) (p : Packet) (s : Session) (k : PacketEnv)
    (q : Packet) (queue : List Segment) (b : SockBuf) : Prop where
  recvShift : s.recvScale < 32
  sendShift : s.sendScale < 32
  first : (newSession e p).sendWindow.toNat = p.window.toNat * 2 ^ e.ws
  later : TakesWindow s q → (handleTcp abi k q s).1.sendWindow.toNat = q.window.toNat * 2 ^ e.ws
  field : (s.recvWindow >>> s.recvScale).toNat < 2 ^ 16
  offered : (getReceiveWindow { s with forward := queue } b >>> s.recvScale).toNat < 2 ^ 16
  fits : getReceiveWindow { s with forward := queue } b = 0 ∨
    (getReceiveWindow { s with forward := queue } b).toNat + unsent queue ≤
      (getReceiveBuffer s.socket b).toNat

/-- In every state of every run the arithmetic is sound exactly if the scale and the windows on it
are small, and the bytes in the queue can be counted. -/
theorem scale_sound_iff (abi : Abi) (e : SynEnv) (p : Packet) (is : List Input) (k : PacketEnv)
    (q : Packet) (queue : List Segment) {b : SockBuf} (hint : b.IsInt) :
    let s := (run (step abi) (newSession e p) is).1
    ScaleSound abi e p s k q queue b ↔
      e.ws < 32 ∧ p.window.toNat * 2 ^ e.ws < 2 ^ 32 ∧
      (TakesWindow s q → q.window.toNat * 2 ^ e.ws < 2 ^ 32) ∧
        (unsent queue < 2 ^ 32 ∨ room s b < unsent queue % 2 ^ 32 + 2 ^ e.ws) := by
  intro s
  have hscaled : Scaled e.ws s := run_scaled abi e p is
  have hfirst : (newSession e p).sendWindow.toNat = p.window.toNat * 2 ^ e.ws ↔
      p.window.toNat * 2 ^ e.ws < 2 ^ 32 :=
    shifted_exact_iff p.window e.ws
  have hlater (htakes : TakesWindow s q) :
      (handleTcp abi k q s).1.sendWindow.toNat = q.window.toNat * 2 ^ e.ws ↔
        q.window.toNat * 2 ^ e.ws < 2 ^ 32 := by
    rw [handleTcp_sendWindow abi k htakes, hscaled.send]
    exact shifted_exact_iff q.window e.ws
  have hfits : (getReceiveWindow { s with forward := queue } b = 0 ∨
        (getReceiveWindow { s with forward := queue } b).toNat + unsent queue ≤
          (getReceiveBuffer s.socket b).toNat) ↔
      unsent queue < 2 ^ 32 ∨ room s b < unsent queue % 2 ^ 32 + 2 ^ e.ws := by
    rw [← hscaled.recv]
    exact getReceiveWindow_fits_iff { s with forward := queue } hint
  constructor
  · intro h
    refine ⟨?_, hfirst.mp h.first, fun htakes => (hlater htakes).mp (h.later htakes),
      hfits.mp h.fits⟩
    rw [← hscaled.recv]
    exact h.recvShift
  · rintro ⟨hscale, hsyn, hpacket, hqueue⟩
    refine ⟨?_, ?_, hfirst.mpr hsyn, fun htakes => (hlater htakes).mpr (hpacket htakes),
      hscaled.field, ?_, hfits.mpr hqueue⟩
    · rwa [hscaled.recv]
    · rwa [hscaled.send]
    · exact getReceiveWindow_field { s with forward := queue } b

theorem unsent_replicate (n : Nat) (g : Segment) :
    unsent (List.replicate n g) = n * (g.len - g.sent) := by
  simp [unsent]

/-- The SYN of the fixed runs with a scale of its own. -/
def scaledSyn (ws : Nat) : SynEnv := { plainSyn 22 with ws := ws }

/-- The largest scale of the standard, after the handshake. -/
theorem scale_sound_largest :
    ScaleSound .arm64V8a (scaledSyn 14) (synPacket [])
      (run (step .arm64V8a) (newSession (scaledSyn 14) (synPacket []))
        [.socket writable, .packet plainEnv (plainPacket 1001 5001 [])]).1
      plainEnv (plainPacket 1001 5001 [])
        [newSegment (plainPacket 1001 5001 (ascii "a"))] ⟨65536, 0⟩ :=
  (scale_sound_iff .arm64V8a (scaledSyn 14) (synPacket []) _ plainEnv _ _ (by decide)).mpr
    (by decide +kernel)

/-- A scale of 17 loses bits of the window 65535, one of 255 shifts by more than the width, and with
a scale of 1 a queue of 65538 full segments is counted as 65534 bytes. -/
theorem scale_not_sound :
    let full := nextSegment 0 65535 (by decide)
    (newSession (scaledSyn 17) (synPacket [])).sendWindow = 0xFFFE0000 ∧
      ¬ ScaleSound .arm64V8a (scaledSyn 17) (synPacket [])
        (newSession (scaledSyn 17) (synPacket []))
        plainEnv (plainPacket 1001 0 []) [] ⟨65536, 0⟩ ∧
      ¬ ScaleSound .arm64V8a (scaledSyn 255) (synPacket [])
        (newSession (scaledSyn 255) (synPacket []))
        plainEnv (plainPacket 1001 0 []) [] ⟨65536, 0⟩ ∧
      ¬ ScaleSound .arm64V8a (scaledSyn 1) (synPacket []) (newSession (scaledSyn 1) (synPacket []))
        plainEnv (plainPacket 1001 0 []) (List.replicate 65538 full) ⟨262144, 0⟩ := by
  intro full
  have hlen : full.len = 65535 := nextSegment_len 0 65535 (by decide)
  have hunsent : unsent (List.replicate 65538 full) = 65538 * 65535 := by
    rw [unsent_replicate, hlen]
    rfl
  refine ⟨by decide +kernel, fun h => ?_, fun h => ?_, fun h => ?_⟩
  · exact absurd h.first (by decide +kernel)
  · exact absurd h.recvShift (by decide +kernel)
  · have hfits := (getReceiveWindow_fits_iff
      { newSession (scaledSyn 1) (synPacket []) with forward := List.replicate 65538 full }
      (b := ⟨262144, 0⟩) (by decide)).mp h.fits
    rw [hunsent] at hfits
    exact absurd hfits (by decide +kernel)

end PdaNetClient.Tcp
