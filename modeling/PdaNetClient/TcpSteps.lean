import PdaNetClient.TcpRuns

/-!
# What one step can do

Each phase of the handlers is inverted once: a property of every outcome listed
here is a property of the phase. The guards that hold on an outcome are its
premises, so later proofs never unfold a handler.
-/
namespace PdaNetClient.Tcp

open Http

set_option autoImplicit false

/-! ## The forward loop -/

theorem copyHost_length (mem : Memory) (room off : Nat) :
    (copyHost mem room off).length ≤ room := by
  induction room generalizing off with
  | zero => simp [copyHost]
  | succ room ih =>
    unfold copyHost
    split
    · have := ih (off + 1)
      simp only [List.length_cons]
      omega
    · simp

theorem inserted_le (mem : Memory) (n : Nat) : (patchHttpUrl mem n).inserted ≤ 518 := by
  unfold patchHttpUrl
  split
  · exact Nat.zero_le _
  · rename_i host _
    have hcopy := copyHost_length mem 511 (host + 6)
    split
    · exact Nat.zero_le _
    · simp only
      split
      · exact Nat.zero_le _
      · split
        · exact Nat.zero_le _
        · have hhttp : (ascii "http://").length = 7 := by decide
          simp only [Patch.inserted, List.length_append, hhttp]
          omega

theorem patchHead_inserted_le (dest : Nat) (after : Memory) (data : Bytes) :
    (patchHead dest after data).inserted ≤ 518 := by
  unfold patchHead
  split
  · exact inserted_le _ _
  · exact Nat.zero_le _

/-- What one pass marks as sent: the clip raises a result of -1 to the whole rest. -/
def marked (r : SendResult) (len : Nat) : Nat :=
  match r with
  | .ok n => min n len
  | .fail _ => len

theorem marked_le (r : SendResult) (len : Nat) : marked r len ≤ len := by
  cases r with
  | ok n => exact Nat.min_le_right _ _
  | fail e => exact Nat.le_refl _

/-- The clip never leaves a negative value, so the error branch is never taken. -/
theorem clip_ret (abi : Abi) (r : SendResult) (len : Nat) (hlen : len < 2 ^ 16)
    (hr : ∀ n, r = .ok n → n < 2 ^ 32) : clip abi r.ret len = (marked r len : Nat) := by
  cases r with
  | ok n =>
    have hn := hr n rfl
    simp only [clip, SendResult.ret, marked, Abi.gtSizeT_ofNat abi n len hn, decide_eq_true_eq]
    split <;> omega
  | fail e => simp [clip, SendResult.ret, marked, Abi.gtSizeT_neg_one abi len hlen]

/-- The session after a pass that marks `n` bytes of the head. -/
def passed (s : Session) (g : Segment) (q : List Segment) (n : Nat) (h : n ≤ g.len - g.sent) :
    Session :=
  { s with
    sent := s.sent + n
    remoteSeq := g.seq + BitVec.ofNat 32 (g.sent + n)
    forward := if g.len = g.sent + n then q else g.advance n h :: q }

theorem afterSend_eq (rstOk : Bool) (s : Session) (g : Segment) (q : List Segment) (fwd : Bool)
    (n : Nat) (e : Errno) (h : n ≤ g.len - g.sent) :
    afterSend rstOk s g q fwd n e =
      ⟨passed s g q n h, true, n, decide (g.len = g.sent + n), []⟩ := by
  have hmin : min (n : Int).toNat (g.len - g.sent) = n := by omega
  have hneg : ¬ ((n : Int) < 0) := by omega
  have hadvance (hle : n ≤ g.len - g.sent) : (g.advance n hle).len = g.len ∧
      (g.advance n hle).sent = g.sent + n ∧ (g.advance n hle).seq = g.seq := ⟨rfl, rfl, rfl⟩
  unfold afterSend
  simp only [if_neg hneg, hmin, passed, hadvance]
  by_cases hlen : g.len = g.sent + n
  · simp [hlen]
  · simp [hlen]

theorem sockSend_ok {socket : Int} {r : SendResult} {asked n : Nat}
    (h : sockSend socket r asked = .ok n) : 0 ≤ socket ∧ n ≤ asked ∧ ∃ m, r = .ok m := by
  unfold sockSend at h
  split at h
  · cases h
  · rename_i hopen
    split at h
    · rename_i m
      injection h with h
      exact ⟨by omega, by omega, m, rfl⟩
    · cases h

/-- The answer `send` gives for the head. -/
def headResult (res : SendResult) (after : Memory) (s : Session) (g : Segment) : SendResult :=
  sockSend s.socket res ((patchHead s.dest after g.rest).apply g.rest).length

theorem headResult_lt (res : SendResult) (after : Memory) (s : Session) (g : Segment) (n : Nat)
    (h : headResult res after s g = .ok n) :
    n ≤ ((patchHead s.dest after g.rest).apply g.rest).length := by
  exact (sockSend_ok h).2.1

/-- A pass either crashes in the rewriting or marks `marked` bytes as sent. -/
@[elab_as_elim]
theorem sendHead_cases {motive : Pass → Prop} (abi : Abi) (rstOk : Bool) (res : SendResult)
    (after : Memory) (s : Session) (g : Segment) (q : List Segment) (fwd : Bool)
    (crash : patchHead s.dest after g.rest = .overrun → motive ⟨s, fwd, 0, false, [.crash]⟩)
    (send : ∀ n (h : n ≤ g.len - g.sent),
      n = marked (headResult res after s g) (g.len - g.sent) →
      motive ⟨passed s g q n h, true, n, decide (g.len = g.sent + n),
        [.forward s.state g.rest (patchHead s.dest after g.rest)
          (headResult res after s g).count]⟩) :
    motive (sendHead abi rstOk res after s g q fwd) := by
  unfold sendHead
  simp only
  split
  · rename_i hover
    exact crash hover
  · have hle := marked_le (headResult res after s g) (g.len - g.sent)
    have hlen : g.rest.length < 2 ^ 16 := by have := g.len_lt; rw [Segment.length_rest]; omega
    have hclip : clip abi (headResult res after s g).ret g.rest.length =
        (marked (headResult res after s g) (g.len - g.sent) : Nat) := by
      rw [← Segment.length_rest]
      refine clip_ret abi _ _ hlen fun n hn => ?_
      have := headResult_lt res after s g n hn
      have := patchHead_inserted_le s.dest after g.rest
      rw [length_apply] at *
      omega
    have hsend := send _ hle rfl
    rw [show sockSend s.socket res ((patchHead s.dest after g.rest).apply g.rest).length =
      headResult res after s g from rfl, hclip, afterSend_eq rstOk s g q fwd _ _ hle]
    exact hsend

/-- What every pass keeps, the loop keeps; the pass at index `i` works on the
`i`-th segment of the queue the loop was started with. -/
theorem forwardLoop_rule (I : Bool → Session → List Out → Prop) (abi : Abi) (e : SocketEnv)
    (queue : List Segment) (hcrash : ∀ fwd s tr, I fwd s tr → I fwd s (tr ++ [.crash]))
    (hpass : ∀ i fwd s tr g q n (h : n ≤ g.len - g.sent), I fwd s tr →
      queue.drop i = g :: q → s.forward = g :: q →
      g.seq + BitVec.ofNat 32 g.sent = s.remoteSeq →
      n = marked (headResult (e.sends i) (e.after i) s g) (g.len - g.sent) →
      I true (passed s g q n h) (tr ++ [.forward s.state g.rest
        (patchHead s.dest (e.after i) g.rest) (headResult (e.sends i) (e.after i) s g).count]))
    (q : List Segment) (i : Nat) (b : U32) (s : Session) (fwd : Bool) (tr : List Out)
    (hq : queue.drop i = q) (hs : s.forward = q) (h : I fwd s tr) :
    I (forwardLoop abi e q i b s fwd).2.1 (forwardLoop abi e q i b s fwd).1
      (tr ++ (forwardLoop abi e q i b s fwd).2.2) := by
  induction q generalizing i b s fwd tr with
  | nil => simpa [forwardLoop] using h
  | cons g q ih =>
    unfold forwardLoop
    by_cases hcan : canForward s g b
    · rw [if_pos hcan]
      simp only
      refine sendHead_cases abi e.tun.rst (e.sends i) (e.after i) s g q fwd ?_ ?_
      · intro _
        simpa using hcrash _ _ _ h
      · intro n hn hmark
        have hnext := hpass i fwd s tr g q n hn h hq hs hcan.1 hmark
        by_cases hlen : g.len = g.sent + n
        · have hdrop : queue.drop (i + 1) = q := by
            rw [← List.drop_drop, hq]
            rfl
          have hrest := ih (i + 1) (b - BitVec.ofNat 32 n) (passed s g q n hn) true _ hdrop
            (by simp [passed, hlen]) hnext
          simpa [hlen] using hrest
        · simpa [hlen] using hnext
    · simpa [if_neg hcan] using h

theorem forwardData_rule (I : Bool → Session → List Out → Prop) (abi : Abi) (e : SocketEnv)
    (s : Session) (tr : List Out) (hcrash : ∀ fwd s tr, I fwd s tr → I fwd s (tr ++ [.crash]))
    (hpass : ∀ i fwd t tr g q n (h : n ≤ g.len - g.sent), I fwd t tr →
      s.forward.drop i = g :: q → t.forward = g :: q →
      g.seq + BitVec.ofNat 32 g.sent = t.remoteSeq →
      n = marked (headResult (e.sends i) (e.after i) t g) (g.len - g.sent) →
      I true (passed t g q n h) (tr ++ [.forward t.state g.rest
        (patchHead t.dest (e.after i) g.rest) (headResult (e.sends i) (e.after i) t g).count]))
    (h : I false s tr) :
    I (forwardData abi e s).2.1 (forwardData abi e s).1 (tr ++ (forwardData abi e s).2.2) := by
  unfold forwardData
  split
  · exact forwardLoop_rule I abi e s.forward hcrash hpass _ 0 _ s false tr rfl rfl h
  · simpa using h

/-- The segment a pass works on, by its place in the queue. -/
theorem getElem_of_drop {queue q : List Segment} {i : Nat} {g : Segment}
    (h : queue.drop i = g :: q) :
    ∃ hi : i < queue.length, queue[i] = g := by
  have hi : i < queue.length := by
    by_contra hge
    rw [List.drop_eq_nil_of_le (by omega)] at h
    cases h
  refine ⟨hi, ?_⟩
  rw [List.drop_eq_getElem_cons hi] at h
  injection h

/-- A head that cannot be forwarded leaves everything as it was. -/
theorem forwardData_idle (abi : Abi) (e : SocketEnv) (s : Session)
    (h : ∀ g q, s.forward = g :: q → e.ev.out →
      ¬ canForward s g (receiveBuffer s.socket e.sndbuf)) :
    forwardData abi e s = (s, false, []) := by
  unfold forwardData
  split
  · rename_i hout
    cases hq : s.forward with
    | nil => rfl
    | cons g q => simp [forwardLoop, h g q hq hout]
  · rfl

/-- Nothing is forwarded on a closed descriptor: its buffer has no room. -/
theorem forwardData_no_socket (abi : Abi) (e : SocketEnv) (s : Session) (h : s.socket < 0) :
    forwardData abi e s = (s, false, []) := by
  apply forwardData_idle
  intro g q _ _ hcan
  have hroom := hcan.2
  rw [receiveBuffer_closed _ _ h] at hroom
  simp [BitVec.lt_def] at hroom

/-! ## The other phases outside LISTEN -/

/-- The session whose acknowledgement is written, and the write. -/
def acked (e : SocketEnv) (s : Session) : Session :=
  if e.tun.ack then { s with time := e.now } else { s with state := .closing }

@[elab_as_elim]
theorem ackForwarded_cases {motive : Session × List Out → Prop} (e : SocketEnv) (fwd : Bool)
    (s : Session)
    (idle : ¬ (fwd = true ∨ s.recvWindow = 0 ∧ 0 < getReceiveWindow s e.rcvbuf) →
      motive ({ s with recvWindow := getReceiveWindow s e.rcvbuf }, []))
    (fin : ∀ t, t =
      { s with recvWindow := getReceiveWindow s e.rcvbuf, remoteSeq := s.remoteSeq + 1 } →
      fwd = true → s.forward = [] → s.state = .closeWait →
      motive (acked e t,
        [.remoteFin, .tun t.state (writeTcp t [] false true false false) e.tun.ack]))
    (ack : ∀ t, t = { s with recvWindow := getReceiveWindow s e.rcvbuf } →
      (fwd = true ∨ s.recvWindow = 0 ∧ 0 < getReceiveWindow s e.rcvbuf) →
      ¬ (fwd = true ∧ s.forward = [] ∧ s.state = .closeWait) →
      motive (acked e t, [.tun t.state (writeTcp t [] false true false false) e.tun.ack])) :
    motive (ackForwarded e fwd s) := by
  unfold ackForwarded
  simp only
  split
  · rename_i hwrite
    by_cases hfin : fwd = true ∧ s.forward = [] ∧ s.state = .closeWait
    · have h := fin _ rfl hfin.1 hfin.2.1 hfin.2.2
      cases hok : e.tun.ack <;> simpa [hfin, writeAck, writeOrClose, acked, hok] using h
    · have h := ack _ rfl hwrite hfin
      cases hok : e.tun.ack <;> simpa [hfin, writeAck, writeOrClose, acked, hok] using h
  · rename_i hidle
    exact idle hidle

@[elab_as_elim]
theorem handleEof_cases {motive : Session × List Out → Prop} (e : SocketEnv) (s : Session)
    (hst : s.state = .established ∨ s.state = .closeWait)
    (reset : s.forward ≠ [] → motive ({ s with state := .closing, socket := -1 },
      [.tun s.state (writeTcp s [] false false false true) e.tun.rst, .close s.socket]))
    (fin : s.forward = [] → e.tun.fin = true →
      motive ({ s with
          localSeq := s.localSeq + 1
          state := if s.state = .established then .finWait1 else .lastAck
          socket := -1 },
        [.tun s.state (writeTcp s [] false true true false) true, .close s.socket]))
    (fail : s.forward = [] → e.tun.fin = false → motive ({ s with state := .closing, socket := -1 },
      [.tun s.state (writeTcp s [] false true true false) false, .close s.socket])) :
    motive (handleEof e s) := by
  unfold handleEof
  by_cases hq : s.forward = []
  · cases hok : e.tun.fin
    · simpa [hq, writeFinAck, hok] using fail hq hok
    · have h := fin hq hok
      rcases hst with hst | hst <;> simpa [hq, writeFinAck, hok, hst] using h
  · have hne : s.state ≠ .listen ∧ s.state ≠ .close := by rcases hst with h | h <;> simp [h]
    simpa [hq, writeRst, hne.1, hne.2] using reset hq

/-- The read asks for `asked` bytes. -/
@[elab_as_elim]
theorem readSocket_cases {motive : Session × List Out → Prop} (e : SocketEnv) (s : Session)
    (skip : motive (s, []))
    (retry : ∀ asked, (s.state = .established ∨ s.state = .closeWait) →
      motive ({ s with time := e.now }, [.recv s.state asked none]))
    (error : ∀ asked, (s.state = .established ∨ s.state = .closeWait) →
      motive ({ s with time := e.now, state := .closing },
        [.recv s.state asked none, .tun s.state (writeTcp s [] false false false true) e.tun.rst]))
    (eof : ∀ asked, (s.state = .established ∨ s.state = .closeWait) →
      motive ((handleEof e { s with time := e.now }).1,
        .recv s.state asked (some []) :: (handleEof e { s with time := e.now }).2))
    (data : ∀ asked bytes t, (s.state = .established ∨ s.state = .closeWait) → bytes ≠ [] →
      bytes.length ≤ asked →
      t = { s with time := e.now, received := s.received + bytes.length } → e.tun.data = true →
      motive ({ t with localSeq := t.localSeq + BitVec.ofNat 32 bytes.length },
        [.recv s.state asked (some bytes),
          .tun t.state (writeTcp t bytes false true false false) true]))
    (dataFail : ∀ asked bytes t, (s.state = .established ∨ s.state = .closeWait) → bytes ≠ [] →
      t = { s with time := e.now, received := s.received + bytes.length } → e.tun.data = false →
      motive ({ t with state := .closing },
        [.recv s.state asked (some bytes),
          .tun t.state (writeTcp t bytes false true false false) false])) :
    motive (readSocket e s) := by
  unfold readSocket
  simp only
  split
  · rename_i hread
    have hst := hread.1
    have hne : s.state ≠ .listen ∧ s.state ≠ .close := by rcases hst with h | h <;> simp [h]
    split
    · split
      · simpa [writeRst, writeTcp, hne.1, hne.2] using error _ hst
      · exact retry _ hst
    · exact eof _ hst
    · rename_i bytes hne' hrecv
      have hbytes : bytes ≠ [] := fun h => hne' h
      have hasked : bytes.length ≤ min (getSendWindow s).toNat s.mss := sockRecv_length hrecv
      cases hok : e.tun.data
      · simpa [writeData, writeOrClose, hok] using dataFail _ bytes _ hst hbytes rfl hok
      · simpa [writeData, writeOrClose, hok] using data _ bytes _ hst hbytes hasked rfl hok
  · exact skip

/-! ## A reset, and an event in LISTEN -/

@[elab_as_elim]
theorem writeRst_cases {motive : Session × List Out → Prop} (ok : Bool) (s : Session)
    (listen : s.state = .listen →
    motive ({ s with remoteSeq := s.remoteSeq + 1, state := .closing },
    [.tun .listen (writeTcp { s with remoteSeq := s.remoteSeq + 1 } [] false true false true) ok]))
    (other : ∀ st, s.state ≠ .listen → st.closed → (st = .close ↔ s.state = .close) →
      motive ({ s with state := st }, [.tun s.state (writeTcp s [] false false false true) ok])) :
    motive (writeRst ok s) := by
  by_cases h : s.state = .listen
  · simpa [writeRst, h] using listen h
  · have hother := other (if s.state = .close then .close else .closing) h
      (by split <;> simp [State.closed]) (by simp)
    simpa [writeRst, h] using hother

/-- The chunks that `drainLoop` discards, as outputs. -/
def drained (e : SocketEnv) : List Out :=
  (drainLoop e.drain).map fun c => .recv .listen 512 (some c)

@[elab_as_elim]
theorem readReply_cases {motive : Session × List Out → Prop} (e : SocketEnv) (s : Session)
    (hst : s.state = .listen)
    (fail : ∀ err, sockRecv s.socket e.recv 12 = .fail err →
      motive ((writeRst e.tun.rst s).1, .recv .listen 12 none :: (writeRst e.tun.rst s).2))
    (early : ∀ bytes, sockRecv s.socket e.recv 12 = .ok bytes → s.connectSent ≠ .sent →
      motive ((writeRst e.tun.rst s).1,
        .recv .listen 12 (some bytes) :: (writeRst e.tun.rst s).2))
    (reply : ∀ bytes, sockRecv s.socket e.recv 12 = .ok bytes → s.connectSent = .sent →
      motive ({ s with connectSent := .established, state := .established },
        .recv .listen 12 (some bytes) :: drained e)) :
    motive (readReply e s) := by
  unfold readReply
  split
  · rename_i err hrecv
    simpa [hst] using fail err hrecv
  · rename_i bytes hrecv
    split
    · rename_i hsent
      simpa [hst, drained] using reply bytes hrecv hsent
    · rename_i hsent
      simpa [hst] using early bytes hrecv hsent

@[elab_as_elim]
theorem handshake_cases {motive : Session × List Out → Prop} (e : SocketEnv) (s : Session)
    (hst : s.state = .listen)
    (ok : ∀ t, t = { s with remoteSeq := s.remoteSeq + 1 } →
      motive ({ t with time := e.now, localSeq := s.localSeq + 1, state := .synRecv },
        [.tun .listen (writeTcp t [] true true false false) true]))
    (fail : ∀ t, t = { s with remoteSeq := s.remoteSeq + 1 } → motive
      ({ t with state := .closing }, [.tun .listen (writeTcp t [] true true false false) false])) :
    motive (handshake e s) := by
  cases hok : e.tun.synAck
  · simpa [handshake, writeSynAck, hok, hst] using fail _ rfl
  · simpa [handshake, writeSynAck, hok, hst] using ok _ rfl

@[elab_as_elim]
theorem checkTcpSocket_cases {motive : Session × List Out → Prop} (abi : Abi) (e : SocketEnv)
    (s : Session) (fault : e.ev.err = true → motive (writeRst e.tun.rst { s with time := e.now }))
    (reply : e.ev.err = false → s.state = .listen → e.ev.inn = true → motive (readReply e s))
    (connected : e.ev.err = false → s.state = .listen → e.ev.inn = false → motive (handshake e s))
    (relays : e.ev.err = false → s.state ≠ .listen → motive (relay abi e s)) :
    motive (checkTcpSocket abi e s) := by
  unfold checkTcpSocket
  split
  · rename_i herr
    exact fault herr
  · rename_i herr
    have herr : e.ev.err = false := Bool.eq_false_iff.mpr herr
    split
    · rename_i hst
      split
      · rename_i hinn
        exact reply herr hst hinn
      · rename_i hinn
        exact connected herr hst (Bool.eq_false_iff.mpr hinn)
    · rename_i hst
      exact relays herr hst

/-! ## A segment from tun -/

theorem inetNtoa_ne_nil (ip4 : Bytes) (h : ip4.length = 4) : inetNtoa ip4 ≠ [] := by
  match ip4, h with
  | [a, b, c, d], _ => simp [inetNtoa, List.intercalate, List.intersperse, ascii]

theorem packetHostname_ne_nil (abi : Abi) (p : Packet) (s : Session) :
    packetHostname abi p s ≠ [] := by
  unfold packetHostname lookupHostname
  simp only
  split
  · exact inetNtoa_ne_nil _ (by simp [Addr.ip4, s.daddr.length_eq])
  · assumption

/-- The name of a packet is never empty, so the request is sent whenever it was
not sent before. -/
@[elab_as_elim]
theorem connectPhase_cases {motive : Session × List Out → Prop} (abi : Abi) (e : PacketEnv)
    (p : Packet) (s : Session)
    (past : ∀ t, t = { s with hostname := packetHostname abi p s } → s.connectSent ≠ .notSent →
      motive (t, []))
    (refused : ∀ t, t = { s with hostname := packetHostname abi p s } → s.connectSent = .notSent →
      (sockSend s.socket e.send (connectRequest t.hostname s.dest).length).count = none →
      motive ((writeRst e.tun.rst t).1,
        .connect s.state (connectRequest t.hostname s.dest) none :: (writeRst e.tun.rst t).2))
    (request : ∀ t n, t = { s with hostname := packetHostname abi p s } → s.connectSent = .notSent →
      sockSend s.socket e.send (connectRequest t.hostname s.dest).length = .ok n →
      motive ({ t with connectSent := .sent, state := .listen },
        [.connect s.state (connectRequest t.hostname s.dest) (some n)])) :
    motive (connectPhase abi e p s) := by
  have hne := packetHostname_ne_nil abi p s
  unfold connectPhase
  by_cases hsent : s.connectSent = .notSent
  · simp only [if_pos hne]
    rw [if_pos ⟨hsent, hne⟩]
    split
    · rename_i err hfail
      exact refused _ rfl hsent (by simp only [hfail, SendResult.count])
    · rename_i n hn
      exact request _ n rfl hsent hn
  · simpa [hsent, hne] using past _ rfl hsent

/-! `connectPhase`, outcome by outcome: the name is never empty, and it is set before it is used. -/

theorem connectPhase_past (abi : Abi) (e : PacketEnv) (p : Packet) (s : Session)
    (h : s.connectSent ≠ .notSent) :
    connectPhase abi e p s = ({ s with hostname := packetHostname abi p s }, []) := by
  have hne := packetHostname_ne_nil abi p s
  simp [connectPhase, hne, h]

theorem connectPhase_refused (abi : Abi) (e : PacketEnv) (p : Packet) (s : Session) {err : Errno}
    (h : s.connectSent = .notSent)
    (hsend : sockSend s.socket e.send (connectRequest (packetHostname abi p s) s.dest).length =
      .fail err) :
    connectPhase abi e p s =
      ((writeRst e.tun.rst { s with hostname := packetHostname abi p s }).1,
        .connect s.state (connectRequest (packetHostname abi p s) s.dest) none ::
          (writeRst e.tun.rst { s with hostname := packetHostname abi p s }).2) := by
  have hne := packetHostname_ne_nil abi p s
  simp [connectPhase, hne, h, hsend]

theorem connectPhase_request (abi : Abi) (e : PacketEnv) (p : Packet) (s : Session) {n : Nat}
    (h : s.connectSent = .notSent)
    (hsend : sockSend s.socket e.send (connectRequest (packetHostname abi p s) s.dest).length =
      .ok n) :
    connectPhase abi e p s =
      ({ s with hostname := packetHostname abi p s, connectSent := .sent, state := .listen },
        [.connect s.state (connectRequest (packetHostname abi p s) s.dest) (some n)]) := by
  have hne := packetHostname_ne_nil abi p s
  simp [connectPhase, hne, h, hsend]

theorem handleTcp_plain_port (abi : Abi) (e : PacketEnv) {p : Packet} {s : Session}
    (hurg : p.urg = false) (hport : ¬ proxied s.dest) :
    handleTcp abi e p s = handleSession e p s := by
  rw [handleTcp, if_neg (by simp [hurg]), if_neg hport]

theorem handleTcp_tunnel (abi : Abi) (e : PacketEnv) {p : Packet} {s : Session}
    (hurg : p.urg = false) (hport : proxied s.dest) (hsent : s.connectSent = .established) :
    handleTcp abi e p s = handleSession e p { s with hostname := packetHostname abi p s } := by
  rw [handleTcp, if_neg (by simp [hurg]), if_pos hport,
    connectPhase_past abi e p s (by simp [hsent])]
  simp only
  rw [if_neg (not_not_intro hsent), List.nil_append]

/-- Before the tunnel stands, a packet is queued behind what the request did. -/
theorem handleTcp_waiting (abi : Abi) (e : PacketEnv) {p : Packet} {s : Session}
    (hurg : p.urg = false) (hport : proxied s.dest) (hsent : s.connectSent ≠ .established) :
    handleTcp abi e p s = (queueTcp p (connectPhase abi e p s).1, (connectPhase abi e p s).2) := by
  have hphase : (connectPhase abi e p s).1.connectSent ≠ .established := by
    refine connectPhase_cases abi e p s ?_ ?_ ?_
    · rintro t rfl _
      exact hsent
    · rintro t rfl _ _
      rw [writeRst_connectSent]
      exact hsent
    · rintro t n rfl _ _
      simp
  rw [handleTcp, if_neg (by simp [hurg]), if_pos hport]
  simp only
  rw [if_pos hphase]

@[elab_as_elim]
theorem handleFin_cases {motive : Session × List Out → Prop} (e : PacketEnv) (s : Session)
    (ignored : motive (s, []))
    (hold : s.state = .established → s.forward ≠ [] → motive ({ s with state := .closeWait }, []))
    (confirm : ∀ t, t = { s with remoteSeq := s.remoteSeq + 1 } → s.state = .established →
      s.forward = [] →
      motive ({ t with state := if e.tun.ack then .closeWait else .closing },
        [.remoteFin, .tun .established (writeTcp t [] false true false false) e.tun.ack]))
    (last : ∀ t, t = { s with remoteSeq := s.remoteSeq + 1 } → s.state = .finWait1 →
      motive ({ t with state := if e.tun.ack then .close else .closing },
        [.remoteFin, .tun .finWait1 (writeTcp t [] false true false false) e.tun.ack])) :
    motive (handleFin e s) := by
  unfold handleFin
  split
  · rename_i hst
    split
    · rename_i hq
      have h := confirm _ rfl hst hq
      cases hok : e.tun.ack <;> simpa [writeAck, hok, hst] using h
    · rename_i hq
      exact hold hst hq
  · rename_i hst
    have h := last _ rfl hst
    cases hok : e.tun.ack <;> simpa [writeAck, hok, hst] using h
  · exact ignored

/-- The part of a packet behind the queueing. -/
@[elab_as_elim]
theorem handleFlags_cases {motive : Session × List Out → Prop} (e : PacketEnv) (p : Packet)
    (s : Session) (ignored : motive (s, []))
    (reset : motive ({ s with state := .closing }, []))
    (fin : p.fin = true → p.rst = false → p.syn = false → (p.ack = false ∨ p.ackSeq = s.localSeq) →
      motive (handleFin e s))
    (ack : ∀ st, st = (match s.state with
        | .synRecv => State.established
        | .lastAck => .closing
        | st => st) → p.ackSeq = s.localSeq →
            motive ({ s with acked := p.ackSeq, state := st }, []))
    (other : compareU32 p.ackSeq s.localSeq < 0 → 0 < compareU32 p.ackSeq s.acked →
      motive ({ s with acked := p.ackSeq }, []))
    (future : p.ackSeq ≠ s.localSeq → ¬ compareU32 p.ackSeq s.localSeq < 0 →
      motive (writeRst e.tun.rst s)) :
    motive (handleFlags e p s) := by
  unfold handleFlags
  split
  · exact reset
  · rename_i hrst
    split
    · rename_i hack
      split
      · exact ignored
      · rename_i hsyn
        split
        · rename_i hfin
          exact fin hfin (by simpa using hrst) (by simpa using hsyn) (by simpa using hack)
        · split
          · rename_i hset
            exact ack _ rfl (hack.resolve_left (by simpa using hset))
          · exact ignored
    · rename_i hack
      have hne : p.ackSeq ≠ s.localSeq := fun h => hack (.inr h)
      unfold handleOtherAck
      split
      · exact ignored
      · split
        · rename_i hlt
          split
          · exact ignored
          · rename_i hle
            exact other hlt (by omega)
        · rename_i hlt
          exact future hne hlt

/-- "Session found": a closed session is reset; an open one takes the data, unless
it is reset for it, and then looks at the flags. -/
@[elab_as_elim]
theorem handleSession_cases {motive : Session × List Out → Prop} (e : PacketEnv) (p : Packet)
    (s : Session)
    (closed : s.state.closed → motive (writeRst e.tun.rst s))
    (refused : ∀ t w, t = { s with time := e.now, sendWindow := w } → ¬ s.state.closed →
      p.datalen ≠ 0 → (s.socket < 0 ∨ s.state = .closeWait) → motive (writeRst e.tun.rst t))
    (bare : ∀ t w, t = { s with time := e.now, sendWindow := w } → ¬ s.state.closed →
      p.datalen = 0 → motive (handleFlags e p t))
    (data : ∀ t w, t = { s with time := e.now, sendWindow := w } → ¬ s.state.closed →
      p.datalen ≠ 0 → 0 ≤ s.socket → s.state ≠ .closeWait →
      motive (handleFlags e p (queueTcp p t))) :
    motive (handleSession e p s) := by
  unfold handleSession
  split
  · rename_i h
    exact closed h
  · rename_i hopen
    simp only
    split
    · rename_i hlen
      exact bare _ _ rfl hopen hlen
    · rename_i hlen
      split
      · rename_i hsock
        exact refused _ _ rfl hopen hlen (.inl hsock)
      · rename_i hsock
        split
        · rename_i hst
          exact refused _ _ rfl hopen hlen (.inr hst)
        · rename_i hst
          exact data _ _ rfl hopen hlen (by omega) hst

/-- `handle_tcp`; a session past its proxy handshake keeps everything but the name. -/
@[elab_as_elim]
theorem handleTcp_cases {motive : Session × List Out → Prop} (abi : Abi) (e : PacketEnv)
    (p : Packet)
    (s : Session)
    (urgent : p.urg = true → motive (s, []))
    (hold : ∀ t h, t = { s with hostname := h } → p.urg = false → proxied s.dest →
      s.connectSent = .sent → motive (queueTcp p t, []))
    (refused : ∀ t, t = { s with hostname := packetHostname abi p s } → p.urg = false →
      proxied s.dest → s.connectSent = .notSent →
      motive (queueTcp p (writeRst e.tun.rst t).1,
        .connect s.state (connectRequest t.hostname s.dest) none :: (writeRst e.tun.rst t).2))
    (request : ∀ t n, t = { s with hostname := packetHostname abi p s } → p.urg = false →
      proxied s.dest → s.connectSent = .notSent →
      sockSend s.socket e.send (connectRequest t.hostname s.dest).length = .ok n →
      motive (queueTcp p { t with connectSent := .sent, state := .listen },
        [.connect s.state (connectRequest t.hostname s.dest) (some n)]))
    (session : ∀ t h, t = { s with hostname := h } → p.urg = false →
      (proxied s.dest → s.connectSent = .established) → motive (handleSession e p t)) :
    motive (handleTcp abi e p s) := by
  unfold handleTcp
  split
  · rename_i h
    exact urgent h
  · rename_i hurg
    have hurg : p.urg = false := by simpa using hurg
    split
    · rename_i hport
      simp only
      refine connectPhase_cases abi e p s ?_ ?_ ?_
      · rintro t rfl hsent
        cases hc : s.connectSent with
        | notSent => exact absurd hc hsent
        | sent => simpa [hc] using hold _ _ rfl hurg hport hc
        | established => simpa [hc] using session _ _ rfl hurg fun _ => hc
      · rintro t rfl hsent _
        simpa [hsent] using refused _ rfl hurg hport hsent
      · rintro t n rfl hsent hn
        simpa using request _ n rfl hurg hport hsent hn
    · rename_i hport
      exact session s s.hostname rfl hurg fun h => absurd h hport

/-! ## The periodic functions -/

/-- A session that differs at most in its keep-alive time, or is closed, and the
keep-alive that may have been written. -/
def Kept (ackOk : Bool) (s t : Session) (outs : List Out) : Prop :=
  ∃ ms st, t = { s with lastKeepAlive := ms, state := st } ∧ (st = s.state ∨ st = .closing) ∧
    (outs = [] ∨
      ((s.state = .established ∨ s.state = .closeWait) ∧ (ackOk = false → st = .closing)) ∧
        outs = [.tun s.state
          (writeTcp { s with remoteSeq := s.remoteSeq - 1 } [] false true false false) ackOk])

theorem Kept.refl (ackOk : Bool) (s : Session) : Kept ackOk s s [] :=
  ⟨s.lastKeepAlive, s.state, rfl, .inl rfl, .inl rfl⟩

theorem keepAlive_kept (e : MonitorEnv) (s : Session)
    (hst : s.state = .established ∨ s.state = .closeWait) :
    Kept e.ackOk s (keepAlive e s).1 (keepAlive e s).2 := by
  unfold keepAlive
  split
  · cases hok : e.ackOk
    · exact ⟨e.ms, .closing, by simp [writeAck], .inr rfl,
        .inr ⟨⟨hst, fun _ => rfl⟩, by simp [writeAck, writeTcp]⟩⟩
    · exact ⟨e.ms, s.state, by simp [writeAck], .inl rfl,
        .inr ⟨⟨hst, by simp⟩, by simp [writeAck, writeTcp]⟩⟩
  · exact Kept.refl _ _

/-- Only the relaying states write anything. -/
theorem monitorEvents_kept (e : MonitorEnv) (s : Session) :
    Kept e.ackOk s (monitorEvents e s).1 (monitorEvents e s).2.2.2 := by
  have hrelay (w : Bool) (hst : s.state = .established ∨ s.state = .closeWait) :
      Kept e.ackOk s (if w then (s, []) else keepAlive e s).1
        (if w then (s, []) else keepAlive e s).2 := by
    cases w
    · exact keepAlive_kept e s hst
    · exact Kept.refl _ _
  unfold monitorEvents
  simp only
  split
  · split <;> exact Kept.refl _ _
  · rename_i hst
    split <;> exact hrelay _ (.inl hst)
  · rename_i hst
    split <;> exact hrelay _ (.inr hst)
  · exact Kept.refl _ _

/-- A monitor pass changes nothing but what it waits for and the keep-alive time,
unless it closes the session. -/
theorem monitor_eq (e : MonitorEnv) (s : Session) :
    ∃ t ev, (monitorTcpSession e s).1 = { t with ev := ev } ∧
      Kept e.ackOk s t (monitorTcpSession e s).2.2 := by
  have hkept := monitorEvents_kept e s
  unfold monitorTcpSession
  simp only
  split
  · cases hok : e.epollOk
    · obtain ⟨ms, st, hs, hst, houts⟩ := hkept
      exact ⟨{ s with lastKeepAlive := ms, state := .closing }, (monitorEvents e s).2.2.1,
        by simp [hs], ms, .closing, rfl, .inr rfl,
        houts.imp_right fun h => ⟨⟨h.1.1, fun _ => rfl⟩, h.2⟩⟩
    · exact ⟨(monitorEvents e s).1, (monitorEvents e s).2.2.1, rfl, hkept⟩
  · exact ⟨(monitorEvents e s).1, (monitorEvents e s).1.ev, rfl, hkept⟩

@[elab_as_elim]
theorem monitorStep_cases {motive : Session × List Out → Prop} (abi : Abi) (e : MonitorEnv)
    (s : Session) (shut : motive (s, []))
    (kept : ∀ t ev outs, Kept e.ackOk s t outs → motive ({ t with ev := ev }, outs)) :
    motive (step abi s (.monitor e)) := by
  show motive (if 0 ≤ s.socket then _ else _)
  split
  · obtain ⟨t, ev, ht, hkept⟩ := monitor_eq e s
    rw [ht]
    exact kept t ev _ hkept
  · exact shut

/-- The socket field of a session that a check pass closes. -/
def closedFd (fd : Int) : Int := if 0 ≤ fd then -1 else fd

theorem closedFd_neg (fd : Int) : closedFd fd < 0 := by
  unfold closedFd
  split <;> omega

/-- A check pass leaves an open session that has not timed out, clears the counters of a closed one,
and closes the descriptor of one that it closes. -/
@[elab_as_elim]
theorem checkTcpSession_cases {motive : Session × Bool × List Out → Prop} (e : CheckEnv)
    (s : Session)
    (idle : ¬ s.state.closed → motive (s, false, []))
    (done : ∀ del, s.state = .close → motive ({ s with sent := 0, received := 0 }, del, []))
    (quiet : ∀ fd del t, t = { s with time := e.now2, state := .close, sent := 0, received := 0 } →
      (s.state = .closing ∨ s.state = .listen) → fd = closedFd s.socket →
      motive ({ t with socket := fd }, del, if 0 ≤ s.socket then [.close s.socket] else []))
    (reset : ∀ fd del t, t = { s with time := e.now2, state := .close, sent := 0, received := 0 } →
      s.state ≠ .listen → ¬ s.state.closed → fd = closedFd s.socket →
      motive ({ t with socket := fd }, del,
        .tun s.state (writeTcp s [] false false false true) e.rstOk ::
          if 0 ≤ s.socket then [.close s.socket] else [])) :
    motive (checkTcpSession e s) := by
  have hfd : (if 0 ≤ s.socket then -1 else s.socket) = closedFd s.socket := rfl
  unfold checkTcpSession
  by_cases hexp : ¬ s.state.closed ∧ s.time + getTcpTimeout s e.sessions e.maxsessions < e.now
  · by_cases hl : s.state = .listen
    · have hx : expireSession e s = ({ s with state := .closing }, []) := by
        rw [expireSession, if_pos hexp, if_pos hl]
      rw [hx]
      simpa [closeSession, State.closed] using quiet _ _ _ rfl (.inr hl) hfd
    · have hne : s.state ≠ .close := fun h => hexp.1 (.inr h)
      have hx : expireSession e s = ({ s with state := .closing },
          [.tun s.state (writeTcp s [] false false false true) e.rstOk]) := by
        rw [expireSession, if_pos hexp, if_neg hl]
        simp [writeRst, hl, hne]
      rw [hx]
      simpa [closeSession, State.closed] using reset _ _ _ rfl hl hexp.1 hfd
  · rw [show expireSession e s = (s, []) by rw [expireSession, if_neg hexp]]
    by_cases hc : s.state = .closing
    · simpa [closeSession, hc, State.closed] using quiet _ _ _ rfl (.inl hc) hfd
    · by_cases hcl : s.state = .close
      · simpa [closeSession, hcl, State.closed] using done _ hcl
      · have hopen : ¬ s.state.closed := fun h => h.elim hc hcl
        simpa [closeSession, hc, hcl, State.closed] using idle hopen

/-! ## Outputs away from the socket -/

/-- Not a call of `send` or `recv`. -/
def Out.offSocket : Out → Prop
  | .tun .. => True
  | .remoteFin => True
  | .close _ => True
  | _ => False

theorem writeRst_offSocket (ok : Bool) (s : Session) : ∀ o ∈ (writeRst ok s).2, o.offSocket := by
  simp [writeRst, Out.offSocket]

theorem handleFlags_offSocket (e : PacketEnv) (p : Packet) (s : Session) :
    ∀ o ∈ (handleFlags e p s).2, o.offSocket := by
  refine handleFlags_cases e p s (by simp) (by simp) (fun _ _ _ _ => ?_) (by simp) (by simp) ?_
  · refine handleFin_cases e s ?_ ?_ ?_ ?_ <;> simp [Out.offSocket]
  · exact fun _ _ => writeRst_offSocket _ s

theorem handleSession_offSocket (e : PacketEnv) (p : Packet) (s : Session) :
    ∀ o ∈ (handleSession e p s).2, o.offSocket := by
  refine handleSession_cases e p s ?_ ?_ ?_ ?_
  · exact fun _ => writeRst_offSocket _ s
  · exact fun t _ _ _ _ _ => writeRst_offSocket _ t
  · exact fun t _ _ _ _ => handleFlags_offSocket e p t
  · exact fun t _ _ _ _ _ _ => handleFlags_offSocket e p (queueTcp p t)

theorem ackForwarded_offSocket (e : SocketEnv) (fwd : Bool) (s : Session) :
    ∀ o ∈ (ackForwarded e fwd s).2, o.offSocket := by
  refine ackForwarded_cases e fwd s ?_ ?_ ?_ <;> simp [Out.offSocket]

theorem handshake_offSocket (e : SocketEnv) (s : Session) (hst : s.state = .listen) :
    ∀ o ∈ (handshake e s).2, o.offSocket := by
  refine handshake_cases e s hst ?_ ?_ <;> simp [Out.offSocket]

theorem monitor_offSocket (e : MonitorEnv) (s : Session) :
    ∀ o ∈ (monitorTcpSession e s).2.2, o.offSocket := by
  obtain ⟨t, ev, -, ms, st, -, -, houts⟩ := monitor_eq e s
  rcases houts with houts | ⟨-, houts⟩ <;> simp [houts, Out.offSocket]

theorem check_offSocket (e : CheckEnv) (s : Session) :
    ∀ o ∈ (checkTcpSession e s).2.2, o.offSocket := by
  have hclose : ∀ o ∈ (if 0 ≤ s.socket then [Out.close s.socket] else []), o.offSocket := by
    split <;> simp [Out.offSocket]
  refine checkTcpSession_cases e s (by simp) (by simp) ?_ ?_
  · exact fun _ _ _ _ _ _ => hclose
  · intro fd del t _ _ _ _ o ho
    rcases List.mem_cons.mp ho with rfl | ho
    · trivial
    · exact hclose o ho

/-! ## What no step changes -/

/-- The key of a session and its two initial sequence numbers. -/
def Session.fixed (s : Session) : Nat × Addr × Nat × Addr × Nat × U32 × U32 :=
  (s.version, s.saddr, s.source, s.daddr, s.dest, s.remoteStart, s.localStart)

/-- What the options of the SYN decided. -/
def Session.negotiated (s : Session) : Nat × Nat × Nat := (s.mss, s.recvScale, s.sendScale)

def Session.frozen (s : Session) : (Nat × Addr × Nat × Addr × Nat × U32 × U32) × Nat × Nat × Nat :=
  (s.fixed, s.negotiated)

/-- Without the window offered to the client, which only the acknowledgement phase takes anew. -/
def Session.steady (s : Session) :
    ((Nat × Addr × Nat × Addr × Nat × U32 × U32) × Nat × Nat × Nat) × U32 :=
  (s.frozen, s.recvWindow)

theorem writeRst_steady (ok : Bool) (s : Session) : (writeRst ok s).1.steady = s.steady := by
  refine writeRst_cases ok s (fun _ => ?_) (fun _ _ _ _ => ?_) <;> rfl

theorem queueTcp_steady (p : Packet) (s : Session) : (queueTcp p s).steady = s.steady := by
  rw [queueTcp_eq]; rfl

theorem handleFlags_steady (e : PacketEnv) (p : Packet) (s : Session) :
    (handleFlags e p s).1.steady = s.steady := by
  refine handleFlags_cases e p s rfl rfl (fun _ _ _ _ => ?_) (fun _ _ _ => rfl) (fun _ _ => rfl)
    fun _ _ => ?_
  · refine handleFin_cases e s rfl (fun _ _ => rfl) ?_ ?_
    · rintro t rfl _ _
      rfl
    · rintro t rfl _
      rfl
  · exact writeRst_steady _ s

theorem handleTcp_steady (abi : Abi) (e : PacketEnv) (p : Packet) (s : Session) :
    (handleTcp abi e p s).1.steady = s.steady := by
  refine handleTcp_cases abi e p s ?_ ?_ ?_ ?_ ?_
  · exact fun _ => rfl
  · rintro t host rfl _ _ _
    exact queueTcp_steady p { s with hostname := host }
  · rintro t rfl _ _ _
    exact (queueTcp_steady p _).trans
      (writeRst_steady _ { s with hostname := packetHostname abi p s })
  · rintro t n rfl _ _ _ _
    exact queueTcp_steady p _
  · rintro t host rfl _ _
    refine handleSession_cases e p { s with hostname := host } ?_ ?_ ?_ ?_
    · exact fun _ => writeRst_steady _ { s with hostname := host }
    · rintro t w rfl _ _ _
      exact writeRst_steady _ { s with hostname := host, time := e.now, sendWindow := w }
    · rintro t w rfl _ _
      exact handleFlags_steady e p { s with hostname := host, time := e.now, sendWindow := w }
    · rintro t w rfl _ _ _ _
      exact (handleFlags_steady e p _).trans
        (queueTcp_steady p { s with hostname := host, time := e.now, sendWindow := w })

theorem forwardData_steady (abi : Abi) (e : SocketEnv) (s : Session) :
    (forwardData abi e s).1.steady = s.steady :=
  forwardData_rule (fun _ t _ => t.steady = s.steady) abi e s [] (fun _ _ _ => id)
    (fun _ _ _ _ _ _ _ _ ht _ _ _ _ => ht) rfl

theorem ackForwarded_steady (e : SocketEnv) (fwd : Bool) (s : Session) :
    (ackForwarded e fwd s).1.steady = (s.frozen, getReceiveWindow s e.rcvbuf) := by
  have hacked (t : Session) : (acked e t).steady = t.steady := by
    unfold acked
    split <;> rfl
  refine ackForwarded_cases e fwd s (fun _ => rfl) ?_ ?_
  · rintro t rfl _ _ _
    exact hacked _
  · rintro t rfl _ _
    exact hacked _

theorem readSocket_steady (e : SocketEnv) (s : Session) : (readSocket e s).1.steady = s.steady := by
  refine readSocket_cases e s rfl (fun _ _ => rfl) (fun _ _ => rfl) ?_ ?_ ?_
  · exact fun _ hst =>
      handleEof_cases e { s with time := e.now } hst (fun _ => rfl) (fun _ _ => rfl) fun _ _ => rfl
  · rintro _ _ t _ _ _ rfl _
    rfl
  · rintro _ _ t _ _ rfl _
    rfl

theorem forwardData_frozen (abi : Abi) (e : SocketEnv) (s : Session) :
    (forwardData abi e s).1.frozen = s.frozen :=
  congrArg Prod.fst (forwardData_steady abi e s)

theorem ackForwarded_frozen (e : SocketEnv) (fwd : Bool) (s : Session) :
    (ackForwarded e fwd s).1.frozen = s.frozen :=
  congrArg Prod.fst (ackForwarded_steady e fwd s)

theorem relay_steady (abi : Abi) (e : SocketEnv) (s : Session) :
    (relay abi e s).1.steady = (s.frozen, getReceiveWindow (forwardData abi e s).1 e.rcvbuf) := by
  have hread :=
    readSocket_steady e (ackForwarded e (forwardData abi e s).2.1 (forwardData abi e s).1).1
  have hack := ackForwarded_steady e (forwardData abi e s).2.1 (forwardData abi e s).1
  rw [forwardData_frozen] at hack
  exact hread.trans hack

/-- The window offered is the one before the step, or was taken in it. -/
theorem step_steady (abi : Abi) (s : Session) (i : Input) :
    (step abi s i).1.steady = s.steady ∨
      ∃ t b, t.frozen = s.frozen ∧ (step abi s i).1.steady = (s.frozen, getReceiveWindow t b) := by
  cases i with
  | packet e p => exact .inl (handleTcp_steady abi e p s)
  | socket e =>
    show (checkTcpSocket abi e s).1.steady = _ ∨ ∃ t b, _ ∧ (checkTcpSocket abi e s).1.steady = _
    refine checkTcpSocket_cases abi e s ?_ ?_ ?_ ?_
    · exact fun _ => .inl (writeRst_steady _ { s with time := e.now })
    · intro _ hst _
      left
      refine readReply_cases e s hst (fun _ _ => ?_) (fun _ _ _ => ?_) (fun _ _ _ => rfl)
      · exact writeRst_steady e.tun.rst s
      · exact writeRst_steady e.tun.rst s
    · intro _ hst _
      left
      refine handshake_cases e s hst ?_ ?_
      · rintro t rfl
        rfl
      · rintro t rfl
        rfl
    · exact fun _ _ =>
        .inr ⟨(forwardData abi e s).1, e.rcvbuf, forwardData_frozen abi e s, relay_steady abi e s⟩
  | monitor e =>
    left
    refine monitorStep_cases abi e s rfl ?_
    rintro t ev outs ⟨ms, st, rfl, -, -⟩
    rfl
  | check e =>
    left
    show (checkTcpSession e s).1.steady = s.steady
    refine checkTcpSession_cases e s (fun _ => rfl) (fun _ _ => rfl) ?_ ?_
    · rintro fd del t rfl _ _
      rfl
    · rintro fd del t rfl _ _ _
      rfl

theorem step_frozen (abi : Abi) (s : Session) (i : Input) : (step abi s i).1.frozen = s.frozen := by
  rcases step_steady abi s i with h | ⟨t, b, -, h⟩
  · exact congrArg Prod.fst h
  · exact congrArg Prod.fst h

theorem writeRst_fixed (ok : Bool) (s : Session) : (writeRst ok s).1.fixed = s.fixed :=
  congrArg (fun f => f.1.1) (writeRst_steady ok s)

theorem step_fixed (abi : Abi) (s : Session) (i : Input) : (step abi s i).1.fixed = s.fixed :=
  congrArg Prod.fst (step_frozen abi s i)

theorem step_negotiated (abi : Abi) (s : Session) (i : Input) :
    (step abi s i).1.negotiated = s.negotiated :=
  congrArg Prod.snd (step_frozen abi s i)

theorem step_remoteStart (abi : Abi) (s : Session) (i : Input) :
    (step abi s i).1.remoteStart = s.remoteStart :=
  congrArg (fun f => f.2.2.2.2.2.1) (step_fixed abi s i)

end PdaNetClient.Tcp
