import PdaNetClient.TcpRelay

/-!
# A TLS flow through the proxy

A session to port 443, whose client's stream goes through the tunnel that the proxy opens.
Until it is open nothing of the stream is sent, if the reply is checked outside the program;
from then on the queue and the sequence number count on as in a session of its own.
-/
namespace PdaNetClient.Tcp

open Http Numbered Runs

set_option autoImplicit false

/-- The data in the queue is data of the stream; segments without any are queued as well. -/
def InStream (S : Bytes) (start : U32) (q : List Segment) : Prop :=
  ∀ g ∈ q, g.data.bytes ≠ [] → Carries (start + 1) S g.seq g.data.bytes

/-- What the acknowledgement number says after `a` was accepted, by how far the tunnel is.
The number of the SYN is counted once at the most, and nothing is forwarded any more in `ended`. -/
inductive Phase (start seq : U32) (st : State) (connectSent : ConnectSent) (q : List Segment)
    (socket : Int) (a : Bytes) : Prop where
  | waiting (hsent : connectSent ≠ .established) (ha : a = [])
      (hseq : ¬ st.closed → seq = start ∨ seq = start + 1)
  | counted (hsent : connectSent = .established) (hst : st ≠ .listen) (hfin : st ≠ .finWait1)
      (hseq : seq = start ∧ a = [] ∨ seq = start + 1 + BitVec.ofNat 32 a.length)
  | ended (hsent : connectSent = .established)
      (hend : socket < 0 ∨ q = [] ∧ (st.closed ∨ st = .closeWait))

structure TunnelAt (S : Bytes) (start : U32) (dest : Nat) (connectSent : ConnectSent)
    (remoteStart remoteSeq : U32) (st : State) (q : List Segment) (socket : Int)
    (a : Bytes) : Prop where
  port : dest = 443
  isn : remoteStart = start
  queued : InStream S start q
  taken : a <+: S
  phase : Phase start remoteSeq st connectSent q socket a

abbrev Tunnel (S : Bytes) (start : U32) (s : Session) (a : Bytes) : Prop :=
  TunnelAt S start s.dest s.connectSent s.remoteStart s.remoteSeq s.state s.forward s.socket a

/-- What the program does not check: that the reply opens the tunnel and ends with its header,
and that the socket is connected once. -/
def Negotiated (abi : Abi) (s : Session) (i : Input) : Prop :=
  ReplyChecked abi s i ∧ HeaderRead abi s i ∧ FirstHandshake s i

instance (abi : Abi) (s : Session) (i : Input) : Decidable (Negotiated abi s i) :=
  inferInstanceAs (Decidable (_ ∧ _))

section

variable {S : Bytes} {start : U32} {s : Session} {a : Bytes}

/-- The ended phase of an open state is one without a socket. -/
theorem socket_of_ended {q : List Segment} {st : State} {socket : Int}
    (hend : socket < 0 ∨ q = [] ∧ (st.closed ∨ st = .closeWait))
    (hopen : ¬ (st.closed ∨ st = .closeWait)) : socket < 0 := hend.resolve_right fun h => hopen h.2

/-- The open tunnel keeps its count from one open state to another. -/
theorem Phase.move {seq : U32} {st st' : State} {connectSent : ConnectSent} {q : List Segment}
    {socket : Int} (h : Phase start seq st connectSent q socket a)
    (hsent : connectSent = .established) (hopen : ¬ (st.closed ∨ st = .closeWait))
    (hlisten : st' ≠ .listen) (hfin : st' ≠ .finWait1) :
    Phase start seq st' connectSent q socket a := by
  cases h with
  | waiting hne => exact absurd hsent hne
  | counted _ _ _ hseq => exact .counted hsent hlisten hfin hseq
  | ended _ hend => exact .ended hsent (.inl (socket_of_ended hend hopen))

theorem Tunnel.proxied (h : Tunnel S start s a) : proxied s.dest := .inr h.port

theorem Waits.carries {e : PacketEnv} {p : Packet} (h : Waits S start (.packet e p))
    (hlen : p.datalen ≠ 0) :
    Carries (start + 1) S p.seq p.data.bytes := by
  have hsyn : ¬ p.syn = true := fun hsyn => hlen (h.2 hsyn)
  have hcarries := h.1 hlen
  rwa [if_neg hsyn] at hcarries

theorem InStream.queue (h : InStream S start s.forward) {p : Packet}
    (hp : p.datalen ≠ 0 → Carries (start + 1) S p.seq p.data.bytes) :
    InStream S start (queueTcp p s).forward := by
  have hdata : p.data.bytes ≠ [] → Carries (start + 1) S p.seq p.data.bytes := fun hne =>
    hp (List.length_pos_iff.mpr hne).ne'
  rcases queueTcp_cases p s with hq | hq
  · rwa [hq]
  · rw [hq]
    refine forall_insertSegment h hdata ?_
    intro g hlen hseq _ hne
    rw [seq_replace, hseq]
    exact hdata hne

theorem InStream.passed (h : InStream S start s.forward) {g : Segment} {q : List Segment} {n : Nat}
    {hn : n ≤ g.len - g.sent} (hq : s.forward = g :: q) :
    InStream S start (passed s g q n hn).forward := by
  intro g' hg'
  rcases mem_passed hq hg' with hg' | rfl
  · exact h g' hg'
  · exact h g (by simp [hq])

theorem forwardData_inStream (abi : Abi) (e : SocketEnv) (h : InStream S start s.forward) :
    InStream S start (forwardData abi e s).1.forward :=
  forwardData_rule (fun _ t _ => InStream S start t.forward) abi e s [] (fun _ _ _ => id)
    (fun _ _ _ _ _ _ _ _ ht _ hq _ _ => ht.passed hq) h

/-! ## Closing -/

theorem Tunnel.close (h : Tunnel S start s a) (st : State) (hst : st.closed) :
    Tunnel S start { s with state := st } a := by
  refine ⟨h.port, h.isn, h.queued, h.taken, ?_⟩
  have hne : st ≠ .listen ∧ st ≠ .finWait1 := by rcases hst with rfl | rfl <;> simp
  cases h.phase with
  | waiting hsent ha _ => exact .waiting hsent ha fun hopen => absurd hst hopen
  | counted hsent _ _ hseq => exact .counted hsent hne.1 hne.2 hseq
  | ended hsent hend => exact .ended hsent (hend.imp_right fun h => ⟨h.1, .inl hst⟩)

/-- A reset counts the SYN in LISTEN, where no tunnel is open. -/
theorem Tunnel.writeRst (h : Tunnel S start s a) (ok : Bool) :
    Tunnel S start (writeRst ok s).1 a := by
  refine writeRst_cases ok s (fun hlisten => ?_) (fun st hl hst _ => h.close st hst)
  refine ⟨h.port, h.isn, h.queued, h.taken, ?_⟩
  cases h.phase with
  | waiting hsent ha _ => exact .waiting hsent ha fun hopen => absurd closed_closing hopen
  | counted _ hst => exact absurd hlisten hst
  | ended hsent hend =>
    exact .ended hsent (.inl (socket_of_ended hend (by simp [hlisten, State.closed])))

/-! ## The forward loop -/

/-- A pass marks exactly what was accepted, when the send takes a count and no request is
rewritten. -/
theorem pass_takes (res : SendResult) (after : Memory) (g : Segment) (h80 : s.dest ≠ 80)
    (hsock : 0 ≤ s.socket) (hres : ∃ m, res = .ok m) :
    (Out.forward s.state g.rest (patchHead s.dest after g.rest)
      (headResult res after s g).count).accepted =
      g.rest.take (marked (headResult res after s g) (g.len - g.sent)) := by
  obtain ⟨m, rfl⟩ := hres
  have hneg : ¬ s.socket < 0 := by omega
  have hpatch : patchHead s.dest after g.rest = .unchanged := by simp [patchHead, h80]
  simp only [headResult, hpatch, sockSend, if_neg hneg, apply_unchanged, SendResult.count, marked,
    Out.accepted, Segment.length_rest]
  rw [Nat.min_eq_left (Nat.min_le_right _ _)]

/-- In the open tunnel, what is accepted of the head is the next piece of the stream. -/
theorem Tunnel.pass (h : Tunnel S start s a) (hS : S.length + 2 < 2 ^ 32)
    (hsent : s.connectSent = .established) (hsock : 0 ≤ s.socket) {g : Segment} {q : List Segment}
    {n : Nat} (hn : n ≤ g.len - g.sent) (hq : s.forward = g :: q)
    (hseq : g.seq + BitVec.ofNat 32 g.sent = s.remoteSeq) :
    Tunnel S start (passed s g q n hn) (a ++ g.rest.take n) := by
  have hnext := passed_remoteSeq s g q n hn hseq
  have hqueued : InStream S start (passed s g q n hn).forward := h.queued.passed hq
  cases h.phase with
  | waiting hne => exact absurd hsent hne
  | ended _ hend =>
    rcases hend with hneg | ⟨hnil, -⟩
    · omega
    · simp [hq] at hnil
  | counted _ hst hfin hcount =>
    by_cases hempty : g.data.bytes = []
    · have hlen : g.len = 0 := by simp [Segment.len, hempty]
      obtain rfl : n = 0 := by omega
      have hsame : (passed s g q 0 hn).remoteSeq = s.remoteSeq := by simp [hnext]
      rw [List.take_zero, List.append_nil]
      exact ⟨h.port, h.isn, hqueued, h.taken, .counted hsent hst hfin (hsame ▸ hcount)⟩
    · obtain ⟨i, hi, hbound, hdata⟩ := h.queued g (by simp [hq]) hempty
      have hle : g.sent ≤ g.data.bytes.length := g.sent_le
      rcases hcount with ⟨hstart, -⟩ | hcount
      · have hcome : start = start + 1 + BitVec.ofNat 32 (i + g.sent) := by
          calc start = s.remoteSeq := hstart.symm
            _ = g.seq + BitVec.ofNat 32 g.sent := hseq.symm
            _ = start + 1 + BitVec.ofNat 32 (i + g.sent) := by
              rw [hi, BitVec.ofNat_add, BitVec.add_assoc]
        exact absurd hcome (ne_counted start (by omega))
      · have hcarry : Carries (start + 1) S (start + 1 + BitVec.ofNat 32 a.length) g.rest := by
          have hdrop := Carries.drop ⟨i, hi, hbound, hdata⟩ hle
          rwa [hseq, hcount] at hdrop
        refine ⟨h.port, h.isn, hqueued, hcarry.extends (by omega) h.taken n,
          .counted hsent hst hfin (.inr ?_)⟩
        rw [hnext, hcount, List.length_append, length_taken g hn, BitVec.ofNat_add,
          BitVec.add_assoc]

/-- With nothing to send the loop takes nothing, and leaves the number as it is. -/
theorem forwardLoop_waits (abi : Abi) (e : SocketEnv) (q : List Segment) (i : Nat) (b : U32)
    (s : Session) (fwd : Bool) (h80 : s.dest ≠ 80) (hq : OffersNoData b s.remoteSeq q) :
    accepted (forwardLoop abi e q i b s fwd).2.2 = [] ∧
    (forwardLoop abi e q i b s fwd).1.remoteSeq = s.remoteSeq := by
  induction q generalizing i s fwd with
  | nil => exact ⟨rfl, rfl⟩
  | cons g q ih =>
    unfold forwardLoop
    split
    · rename_i hcan
      obtain ⟨hrest, hmore⟩ := hq hcan.1 hcan.2
      simp only
      refine sendHead_cases abi e.tun.rst (e.sends i) (e.after i) s g q fwd ?_ ?_
      · exact fun _ => ⟨rfl, rfl⟩
      · intro n hn _
        have hlen : g.len - g.sent = 0 := by rw [← Segment.length_rest, hrest]; rfl
        have hle := g.sent_le_len
        obtain rfl : n = 0 := by omega
        have hseq : (passed s g q 0 hn).remoteSeq = s.remoteSeq := by
          simp [passed_remoteSeq s g q 0 hn hcan.1]
        have hwhole : g.len = g.sent + 0 := by omega
        have hnone : (Out.forward s.state g.rest (patchHead s.dest (e.after i) g.rest)
            (headResult (e.sends i) (e.after i) s g).count).accepted = [] := by
          have hpatch : patchHead s.dest (e.after i) g.rest = .unchanged := by simp [patchHead, h80]
          rw [hpatch, hrest]
          cases (headResult (e.sends i) (e.after i) s g).count <;> simp [apply_unchanged]
        have hloop := ih (i + 1) (passed s g q 0 hn) true h80 (by rwa [hseq])
        simpa [hwhole, hseq, -Out.accepted, hnone] using hloop
    · exact ⟨rfl, rfl⟩

/-- What the forward loop does not look at. -/
theorem forwardData_keeps (abi : Abi) (e : SocketEnv) (s : Session) :
    (forwardData abi e s).1.state = s.state ∧ (forwardData abi e s).1.connectSent = s.connectSent ∧
      (forwardData abi e s).1.dest = s.dest ∧ (forwardData abi e s).1.remoteStart = s.remoteStart :=
  forwardData_rule (fun _ t _ => t.state = s.state ∧ t.connectSent = s.connectSent ∧
    t.dest = s.dest ∧
    t.remoteStart = s.remoteStart) abi e s [] (fun _ _ _ => id) (fun _ _ _ _ _ _ _ _ ht _ _ _ _ =>
      ht) ⟨rfl, rfl, rfl, rfl⟩

theorem forwardData_tunnel (abi : Abi) (e : SocketEnv) (tr : List Out) (hS : S.length + 2 < 2 ^ 32)
    (hok : ∀ i, ∃ n, e.sends i = .ok n)
    (hi : s.connectSent ≠ .established → e.ev.out = true →
      OffersNoData (receiveBuffer s.socket e.sndbuf) s.remoteSeq s.forward)
    (h : Tunnel S start s (accepted tr)) :
    Tunnel S start (forwardData abi e s).1 (accepted (tr ++ (forwardData abi e s).2.2)) := by
  have h80 : s.dest ≠ 80 := by simp [h.port]
  by_cases hsent : s.connectSent = .established
  · by_cases hsock : s.socket < 0
    · rw [forwardData_no_socket abi e s hsock]
      simpa using h
    · have hrule := forwardData_rule
        (fun _ t tr => t.connectSent = .established ∧ 0 ≤ t.socket ∧
          Tunnel S start t (accepted tr)) abi e s tr
        (fun _ t tr ht => by simpa using ht)
        (fun i _ t tr g q n hn ht _ hq hseq hmark => by
          obtain ⟨hconn, hopen, htunnel⟩ := ht
          have htakes := pass_takes (e.sends i) (e.after i) g (by simp [htunnel.port]) hopen (hok i)
          refine ⟨hconn, hopen, ?_⟩
          rw [accepted_append, accepted_cons, accepted_nil, List.append_nil, htakes, ← hmark]
          exact htunnel.pass hS hconn hopen hn hq hseq)
        ⟨hsent, by omega, h⟩
      exact hrule.2.2
  · obtain ⟨hstate, hconn, hdest, hstart⟩ := forwardData_keeps abi e s
    have hqueued := forwardData_inStream abi e h.queued
    have hnone : accepted (forwardData abi e s).2.2 = [] ∧
        (forwardData abi e s).1.remoteSeq = s.remoteSeq := by
      unfold forwardData
      split
      · rename_i hout
        exact forwardLoop_waits abi e s.forward 0 _ s false h80 (hi hsent hout)
      · exact ⟨rfl, rfl⟩
    rw [accepted_append, hnone.1, List.append_nil]
    refine ⟨hdest.trans h.port, hstart.trans h.isn, hqueued, h.taken, ?_⟩
    cases h.phase with
    | waiting _ ha hseq => exact .waiting (by rwa [hconn]) ha (by rwa [hstate, hnone.2])
    | counted hyes => exact absurd hyes hsent
    | ended hyes => exact absurd hyes hsent

/-! ## The other phases -/

theorem Tunnel.connected (h : Tunnel S start s a) (hearly : Early s)
    (hst : s.state = .established ∨ s.state = .closeWait) :
    s.connectSent = .established := hearly.connected hst h.proxied

theorem acked_tunnel (e : SocketEnv) (t : Session) (h : Tunnel S start t a) :
    Tunnel S start (acked e t) a := by
  unfold acked
  split
  · exact h
  · exact h.close _ closed_closing

theorem ackForwarded_tunnel (e : SocketEnv) (fwd : Bool) (hearly : Early s)
    (h : Tunnel S start s a) :
    Tunnel S start (ackForwarded e fwd s).1 a ∧ accepted (ackForwarded e fwd s).2 = [] := by
  refine ackForwarded_cases e fwd s ?_ ?_ ?_
  · exact fun _ => ⟨h, rfl⟩
  · rintro t rfl _ hq hst
    exact ⟨acked_tunnel e _
      { h with phase := .ended (h.connected hearly (.inr hst)) (.inr ⟨hq, .inr hst⟩) }, rfl⟩
  · rintro t rfl _ _
    exact ⟨acked_tunnel e _ h, rfl⟩

theorem readSocket_tunnel (e : SocketEnv) (hearly : Early s) (h : Tunnel S start s a) :
    Tunnel S start (readSocket e s).1 a ∧ accepted (readSocket e s).2 = [] := by
  refine readSocket_cases e s ⟨h, rfl⟩ ?_ ?_ ?_ ?_ ?_
  · exact fun _ _ => ⟨h, rfl⟩
  · exact fun _ _ => ⟨h.close _ closed_closing, rfl⟩
  · intro asked hst
    have hend : Phase start s.remoteSeq .closing s.connectSent s.forward (-1) a :=
      .ended (h.connected hearly hst) (.inl (by simp))
    refine handleEof_cases e { s with time := e.now } hst ?_ ?_ ?_
    · exact fun _ => ⟨{ h with phase := hend }, rfl⟩
    · exact fun _ _ => ⟨{ h with phase := .ended (h.connected hearly hst) (.inl (by simp)) }, rfl⟩
    · exact fun _ _ => ⟨{ h with phase := hend }, rfl⟩
  · rintro asked bytes t _ _ _ rfl _
    exact ⟨h, rfl⟩
  · rintro asked bytes t _ _ rfl _
    exact ⟨h.close _ closed_closing, rfl⟩

/-- A FIN is only looked at behind the handshake with the proxy, and counted when the queue is
empty. -/
theorem handleFin_tunnel (e : PacketEnv) (hsent : s.connectSent = .established)
    (h : Tunnel S start s a) :
    Tunnel S start (handleFin e s).1 a ∧ accepted (handleFin e s).2 = [] := by
  refine handleFin_cases e s ⟨h, rfl⟩ ?_ ?_ ?_
  · intro hst _
    exact ⟨{ h with phase := h.phase.move hsent (by simp [hst, State.closed]) (by simp) (by simp) },
      rfl⟩
  · rintro t rfl hst hq
    refine ⟨{ h with phase := .ended hsent (.inr ⟨hq, ?_⟩) }, rfl⟩
    cases e.tun.ack <;> simp
  · rintro t rfl hst
    refine ⟨{ h with phase := ?_ }, rfl⟩
    cases h.phase with
    | waiting hne => exact absurd hsent hne
    | counted _ _ hfin => exact absurd hst hfin
    | ended _ hend => exact .ended hsent (.inl (socket_of_ended hend (by simp [hst, State.closed])))

theorem handleFlags_tunnel (e : PacketEnv) (p : Packet) (hsent : s.connectSent = .established)
    (h : Tunnel S start s a) :
    Tunnel S start (handleFlags e p s).1 a ∧ accepted (handleFlags e p s).2 = [] := by
  refine handleFlags_cases e p s ⟨h, rfl⟩ ?_ ?_ ?_ ?_ ?_
  · exact ⟨h.close _ closed_closing, rfl⟩
  · exact fun _ _ _ _ => handleFin_tunnel e hsent h
  · rintro st rfl _
    refine ⟨?_, rfl⟩
    cases hst : s.state with
    | lastAck => exact h.close _ closed_closing
    | synRecv =>
      exact { h with phase := h.phase.move hsent (by simp [hst, State.closed]) (by simp) (by simp) }
    | _ => simpa only [Tunnel, hst] using h
  · exact fun _ _ => ⟨h, rfl⟩
  · exact fun _ _ => ⟨h.writeRst _, rfl⟩

/-- Queueing, in the open tunnel only on an open socket and in an open state. -/
theorem Tunnel.queue (h : Tunnel S start s a) {p : Packet}
    (hp : p.datalen ≠ 0 → Carries (start + 1) S p.seq p.data.bytes)
    (hlive : s.connectSent = .established → 0 ≤ s.socket ∧ ¬ s.state.closed ∧
      s.state ≠ .closeWait) :
    Tunnel S start (queueTcp p s) a := by
  have hqueued := h.queued.queue hp
  refine ⟨by simpa using h.port, by simpa using h.isn, hqueued, h.taken, ?_⟩
  simp only [queueTcp_remoteSeq, queueTcp_state, queueTcp_connectSent, queueTcp_socket]
  cases h.phase with
  | waiting hsent ha hseq => exact .waiting hsent ha hseq
  | counted hsent hst hfin hseq => exact .counted hsent hst hfin hseq
  | ended hsent hend =>
    obtain ⟨hsock, hopen, hst⟩ := hlive hsent
    rcases hend with hneg | ⟨-, hcl | hcw⟩
    · omega
    · exact absurd hcl hopen
    · exact absurd hcw hst

theorem handleSession_tunnel (e : PacketEnv) {p : Packet}
    (hp : p.datalen ≠ 0 → Carries (start + 1) S p.seq p.data.bytes)
    (hsent : s.connectSent = .established) (h : Tunnel S start s a) :
    Tunnel S start (handleSession e p s).1 a ∧ accepted (handleSession e p s).2 = [] := by
  refine handleSession_cases e p s ?_ ?_ ?_ ?_
  · exact fun _ => ⟨h.writeRst _, rfl⟩
  · rintro t w rfl _ _ _
    exact ⟨Tunnel.writeRst (s := { s with time := e.now, sendWindow := w }) h e.tun.rst, rfl⟩
  · rintro t w rfl _ _
    exact handleFlags_tunnel (s := { s with time := e.now, sendWindow := w }) e p hsent h
  · rintro t w rfl hopen hlen hsock hst
    have hq := Tunnel.queue (s := { s with time := e.now, sendWindow := w }) h hp fun _ =>
      ⟨hsock, hopen, hst⟩
    exact handleFlags_tunnel e p (by simpa using hsent) hq

theorem handleTcp_tunnelled (abi : Abi) (e : PacketEnv) (p : Packet)
    (hp : p.datalen ≠ 0 → Carries (start + 1) S p.seq p.data.bytes)
    (hi : HeaderRead abi s (.packet e p)) (h : Tunnel S start s a) :
    Tunnel S start (handleTcp abi e p s).1 a ∧ accepted (handleTcp abi e p s).2 = [] := by
  refine handleTcp_cases abi e p s ?_ ?_ ?_ ?_ ?_
  · exact fun _ => ⟨h, rfl⟩
  · rintro t host rfl _ _ hsent
    exact ⟨Tunnel.queue (s := { s with hostname := host }) h hp
      fun hc => by simp [hsent] at hc, rfl⟩
  · rintro t rfl _ _ hsent
    have hrst := Tunnel.writeRst (s := { s with hostname := packetHostname abi p s }) h e.tun.rst
    exact ⟨hrst.queue hp fun hc => by simp [hsent] at hc, rfl⟩
  · rintro t n rfl hurg hport hsent hn
    have hopen : ¬ s.state.closed := by
      intro hc
      have hnone := hi hurg hport hsent hc
      simp [hn, SendResult.count] at hnone
    have hasked : Tunnel S start { s with
        hostname := packetHostname abi p s, connectSent := .sent, state := .listen } a := by
      refine ⟨h.port, h.isn, h.queued, h.taken, ?_⟩
      cases h.phase with
      | waiting _ ha hseq => exact .waiting (by simp) ha fun _ => hseq hopen
      | counted hyes => simp [hsent] at hyes
      | ended hyes => simp [hsent] at hyes
    exact ⟨hasked.queue hp fun hc => by simp at hc, rfl⟩
  · rintro t host rfl _ hsent
    exact handleSession_tunnel (s := { s with hostname := host }) e hp (hsent h.proxied) h

/-- The reply opens the tunnel of a session that counted its SYN once at the most. -/
theorem readReply_tunnel (e : SocketEnv) (hst : s.state = .listen) (h : Tunnel S start s a) :
    Tunnel S start (readReply e s).1 a ∧ accepted (readReply e s).2 = [] := by
  refine readReply_cases e s hst ?_ ?_ ?_
  · exact fun _ _ => ⟨h.writeRst e.tun.rst, rfl⟩
  · exact fun _ _ _ => ⟨h.writeRst e.tun.rst, rfl⟩
  · intro bytes _ hsent
    refine ⟨⟨h.port, h.isn, h.queued, h.taken, ?_⟩, ?_⟩
    · cases h.phase with
      | waiting _ ha hseq =>
        refine .counted rfl (by simp) (by simp) ?_
        rcases hseq (by simp [hst]) with hfresh | hone
        · exact .inl ⟨hfresh, ha⟩
        · exact .inr (by simp [hone, ha])
      | counted hyes => simp [hsent] at hyes
      | ended hyes => simp [hsent] at hyes
    · refine List.flatMap_eq_nil_iff.mpr fun o ho => ?_
      rcases List.mem_cons.mp ho with rfl | ho
      · rfl
      · obtain ⟨chunk, -, rfl⟩ := List.mem_map.mp ho
        rfl

theorem handshake_tunnel (e : SocketEnv) (hst : s.state = .listen)
    (hfirst : s.remoteSeq = s.remoteStart) (h : Tunnel S start s a) :
    Tunnel S start (handshake e s).1 a ∧ accepted (handshake e s).2 = [] := by
  have hnext (st : State) :
      Phase start (s.remoteSeq + 1) st s.connectSent s.forward s.socket a := by
    cases h.phase with
    | waiting hsent ha _ => exact .waiting hsent ha fun _ => .inr (by rw [hfirst, h.isn])
    | counted _ hlisten => exact absurd hst hlisten
    | ended hsent hend =>
      exact .ended hsent (.inl (socket_of_ended hend (by simp [hst, State.closed])))
  refine handshake_cases e s hst ?_ ?_
  · rintro t rfl
    exact ⟨{ h with phase := hnext .synRecv }, rfl⟩
  · rintro t rfl
    exact ⟨{ h with phase := hnext .closing }, rfl⟩

theorem checkTcpSocket_tunnel (abi : Abi) (e : SocketEnv) (tr : List Out)
    (hS : S.length + 2 < 2 ^ 32) (hok : ∀ i, ∃ n, e.sends i = .ok n)
    (hi : Negotiated abi s (.socket e)) (hearly : Early s) (h : Tunnel S start s (accepted tr)) :
    Tunnel S start (checkTcpSocket abi e s).1 (accepted (tr ++ (checkTcpSocket abi e s).2)) := by
  obtain ⟨hreply, -, hfirst⟩ := hi
  refine checkTcpSocket_cases abi e s ?_ ?_ ?_ ?_
  · intro _
    simpa [writeRst] using Tunnel.writeRst (s := { s with time := e.now }) h e.tun.rst
  · intro _ hst _
    obtain ⟨hread, hnil⟩ := readReply_tunnel e hst h
    rwa [accepted_append, hnil, List.append_nil]
  · intro herr hst hinn
    obtain ⟨hshake, hnil⟩ := handshake_tunnel e hst (hfirst hst herr hinn).1 h
    rwa [accepted_append, hnil, List.append_nil]
  · intro herr hst
    have hf := forwardData_tunnel abi e tr hS hok ((hreply herr).2 hst) h
    have hearly' := forwardData_early abi e s hearly
    obtain ⟨ha, hnil⟩ := ackForwarded_tunnel e (forwardData abi e s).2.1 hearly' hf
    obtain ⟨hr, hnil'⟩ := readSocket_tunnel e (ackForwarded_early e _ _ hearly') ha
    simpa [relay, hnil, hnil'] using hr

theorem step_tunnel (abi : Abi) (i : Input) (tr : List Out) (hS : S.length + 2 < 2 ^ 32)
    (hin : Waits S start i) (hi : Negotiated abi s i) (hearly : Early s)
    (h : Tunnel S start s (accepted tr)) :
    Tunnel S start (step abi s i).1 (accepted (tr ++ (step abi s i).2)) := by
  cases i with
  | packet e p =>
    obtain ⟨hp, hnil⟩ := handleTcp_tunnelled abi e p hin.carries hi.2.1 h
    show Tunnel S start (handleTcp abi e p s).1 (accepted (tr ++ (handleTcp abi e p s).2))
    rwa [accepted_append, hnil, List.append_nil]
  | socket e => exact checkTcpSocket_tunnel abi e tr hS hin hi hearly h
  | monitor e =>
    refine monitorStep_cases abi e s (by simpa using h) ?_
    rintro t ev outs ⟨ms, st, rfl, hst, houts⟩
    have hnil : accepted outs = [] := by
      rcases houts with houts | ⟨-, houts⟩ <;> rw [houts] <;> rfl
    rw [accepted_append, hnil, List.append_nil]
    rcases hst with rfl | rfl
    · exact h
    · exact h.close _ closed_closing
  | check e =>
    show Tunnel S start (checkTcpSession e s).1 (accepted (tr ++ (checkTcpSession e s).2.2))
    have hclose : accepted (if 0 ≤ s.socket then [.close s.socket] else []) = [] := by split <;> rfl
    have hshut :
      Phase start s.remoteSeq .close s.connectSent s.forward (closedFd s.socket) (accepted tr) := by
      cases h.phase with
      | waiting hsent ha _ => exact .waiting hsent ha fun hopen => absurd (.inr rfl) hopen
      | counted hsent => exact .ended hsent (.inl (closedFd_neg _))
      | ended hsent => exact .ended hsent (.inl (closedFd_neg _))
    refine checkTcpSession_cases e s ?_ ?_ ?_ ?_
    · intro _
      simpa using h
    · intro _ _
      simpa using h
    · rintro fd del t rfl _ hfd
      rw [accepted_append, hclose, List.append_nil]
      exact { h with phase := hfd ▸ hshut }
    · rintro fd del t rfl _ _ hfd
      rw [accepted_append, accepted_cons, hclose, List.append_nil]
      exact (List.append_nil (accepted tr)).symm ▸ { h with phase := hfd ▸ hshut }

/-! ## One proxied session -/

/-- What holds of a session through the tunnel with the outputs `tr`. -/
structure Proxied (S : Bytes) (start : U32) (s : Session) (tr : List Out) : Prop where
  tunnel : Tunnel S start s (accepted tr)
  down : Down s tr
  early : Early s
  gate : Gate s tr

theorem step_proxied (abi : Abi) {i : Input} {tr : List Out} (hS : S.length + 2 < 2 ^ 32)
    (hin : Waits S start i) (hi : Negotiated abi s i) (h : Proxied S start s tr) :
    Proxied S start (step abi s i).1 (tr ++ (step abi s i).2) where
  tunnel := step_tunnel abi i tr hS hin hi h.early h.tunnel
  down := step_down abi i hi.2.1 h.early h.down
  early := step_early abi s i h.early
  gate := step_gate abi i hi.1 h.early h.gate

theorem newSession_proxied (S : Bytes) (e : SynEnv) {p : Packet} (hport : e.dest = 443)
    (hlen : p.datalen = 0) :
    Proxied S p.seq (newSession e p) [] where
  tunnel := by
    refine ⟨hport, rfl, ?_, List.nil_prefix, .waiting (by simp) rfl fun _ => .inl rfl⟩
    simp [InStream, newSession_forward, hlen]
  down := newSession_down e p
  early := newSession_early e p
  gate := ⟨.inr hport, by simp, by simp, by simp [Gated]⟩

theorem proxied_run (abi : Abi) {S : Bytes} (hS : S.length + 2 < 2 ^ 32) (e : SynEnv) {p : Packet}
    (hport : e.dest = 443) (hlen : p.datalen = 0) {is : List Input}
    (his : Along (step abi) (fun _ i => Waits S p.seq i) (newSession e p) is)
    (hneg : Along (step abi) (Negotiated abi) (newSession e p) is) :
    Proxied S p.seq (run (step abi) (newSession e p) is).1 (run (step abi) (newSession e p) is).2 :=
  run_invariant (step abi) _ (Proxied S p.seq)
    (fun _ _ _ hs hi => step_proxied abi hS hi.1 hi.2 hs) is _
    (newSession_proxied S e hport hlen) ((along_and _ _ _ _ _).mpr ⟨his, hneg⟩)

end

end PdaNetClient.Tcp

namespace PdaNetClient.Table

open Runs Sweep Datagram Interleaving Numbered

/-! ## In the loop -/

/-- In every run of the loop, a TLS session carries both streams in order and sends nothing of
the client before its tunnel is open, whatever the other sessions do: if the packets of its flow
agree with one stream, none of its sends fails, and each reply opens the tunnel and ends with
its header. -/
theorem tunnel_relayed (c : Config) (past is : List Input) (his : ∀ i ∈ is, i.looping) {n fd : Nat}
    {before after : List Input} {e : PacketEnv} {p : TcpPacket}
    (hborn : Born c (run (step c) empty past).1 is n before e (.tcp p) fd after)
    (hport : p.dest = 443) (hlen : p.segment.datalen = 0) (S : Bytes) (hS : S.length + 2 < 2 ^ 32)
    (hclient : ∀ i ∈ after, ClientSends S p n i)
    (hneg : Along (Tcp.step c.abi) (Tcp.Negotiated c.abi) (Tcp.newSession (tcpSyn e p fd) p.segment)
      (tcpHeard c (run (step c) empty past).1 n before e p after)) :
    let r := run (step c) (run (step c) empty past).1 is
    let said := ((sessionPart c n).outs r.2).filterMap Said.tcpOf
    TcpRelayed S p.dest ((sessionPart c n).view r.1) said ∧ Tcp.Gated said := by
  have hl := run_apart c past
  have hproxied :=
    Tcp.proxied_run c.abi hS (tcpSyn e p fd) hport hlen (tcpHeard_waits hl hborn his hclient) hneg
  constructor
  · exact relayed_of_run hl hborn his rfl hproxied.tunnel.taken hproxied.down
  · exact (run_tcp_born hl hborn his).1 ▸ hproxied.gate.gated

/-- Behind the SYN to port 443: the socket connects, the client's ACK sends the request, the
proxy agrees, another flow starts, and each side sends two bytes. -/
def throughProxy : List Input :=
  [.socket 0 (datagramEvent []) Tcp.writable,
    .packet (plainEnv 4) (tcpPacket 443 (Tcp.plainPacket 1001 5001 [])),
    .socket 0 (datagramEvent []) (Tcp.replyWith " OK\r\n\r\n"),
    .packet (plainEnv 4) (udpPacket client 40001 (server 34) 9999 [1]),
    .packet (plainEnv 5) (tcpPacket 443 (Tcp.plainPacket 1001 5001 (ascii "AB"))),
    .socket 0 (datagramEvent []) Tcp.writable,
    .socket 0 (datagramEvent []) (Tcp.readable (ascii "CD"))]

theorem tunnel_relayed_flow :
    let is := Input.packet (plainEnv 3) (tcpPacket 443 (Tcp.synPacket [])) :: throughProxy
    let r := run (step (plainConfig 100 false)) empty is
    let said := ((sessionPart (plainConfig 100 false) 0).outs r.2).filterMap Said.tcpOf
    (TcpRelayed (ascii "AB") 443 ((sessionPart (plainConfig 100 false) 0).view r.1) said ∧
      Tcp.Gated said) ∧
      Tcp.accepted said = ascii "AB" ∧ Tcp.payload said = ascii "CD" := by
  refine ⟨?_, by decide +kernel, by decide +kernel⟩
  have hborn : Born (plainConfig 100 false) empty
    (Input.packet (plainEnv 3) (tcpPacket 443 (Tcp.synPacket [])) :: throughProxy) 0
      [] (plainEnv 3) (tcpPacket 443 (Tcp.synPacket [])) 3 throughProxy :=
      ⟨rfl, ⟨by decide, by decide, ⟨rfl, rfl⟩, rfl⟩, rfl⟩
  refine tunnel_relayed (plainConfig 100 false) [] _ (by decide) hborn rfl rfl (ascii "AB")
    (by decide) ?_ (by decide +kernel)
  simp only [throughProxy, List.forall_mem_cons, List.not_mem_nil, false_imp_iff,
    implies_true, and_true]
  refine ⟨fun _ _ => ⟨65536, rfl⟩, fun _ => ⟨fun hlen => absurd rfl hlen, fun _ => rfl⟩,
    fun _ _ => ⟨65536, rfl⟩, trivial, fun _ => ⟨fun _ => ?_, ?_⟩, fun _ _ => ⟨65536, rfl⟩,
    fun _ _ => ⟨65536, rfl⟩⟩
  · exact .of_initial List.prefix_rfl
  · exact fun hsyn => absurd hsyn (by decide)

end PdaNetClient.Table
