import PdaNetClient.TcpEncode
import PdaNetClient.TcpClosed
import PdaNetClient.TcpFlow

/-!
# Sizes of reads

`check_tcp_socket` reads at most the MSS of the client's SYN, which nothing checks. The
count goes two ways: a result of 0 is taken for the end of the stream, and the bytes are
written behind two headers in a packet whose length has 16 bits.
-/
namespace PdaNetClient.Tcp

open Http Runs
open Ip (ipHeaderLength sizeofTcphdr sizeofIphdr sizeofIp6Hdr tunBytes tcpLength
    promisedLength totLen)

set_option autoImplicit false

/-- The payload of the longest packet of a version. -/
def payloadRoom (version : Nat) : Nat := 65535 - ipHeaderLength version - sizeofTcphdr

/-- A read asks for something, and for no more than a packet can carry; the length field of a
packet is its length. -/
def Usable (version : Nat) : Out → Prop
  | .recv _ asked _ => 1 ≤ asked ∧ asked + (ipHeaderLength version + sizeofTcphdr) ≤ 65535
  | .tun _ p _ => ∀ after, promisedLength p.version (memoryOf (tunBytes p) after) =
      (tunBytes p).length
  | _ => True

/-- The head of the queue is sent, unless the rewriting of its URL runs out of its buffer. -/
def Forwards (s : Session) (e : SocketEnv) : Prop :=
  match s.forward with
  | [] => False
  | g :: _ => e.ev.out = true ∧ canForward s g (receiveBuffer s.socket e.sndbuf) ∧
      patchHead s.dest (e.after 0) g.rest ≠ .overrun

instance (s : Session) (e : SocketEnv) : Decidable (Forwards s e) := by
  unfold Forwards
  split <;> infer_instance

/-- The event is written an acknowledgement for. -/
def Acknowledges (s : Session) (e : SocketEnv) : Prop :=
  Forwards s e ∨ s.recvWindow = 0 ∧ 0 < getReceiveWindow s e.rcvbuf

instance (s : Session) (e : SocketEnv) : Decidable (Acknowledges s e) :=
  inferInstanceAs (Decidable (_ ∨ _))

/-- The event comes to the read: the client has room, and no write to tun fails before. -/
def Reads (s : Session) (e : SocketEnv) : Prop :=
  e.ev.err = false ∧ e.ev.inn = true ∧ (s.state = .established ∨ s.state = .closeWait) ∧
    0 < getSendWindow s ∧
    (Acknowledges s e → e.tun.ack = true)

instance (s : Session) (e : SocketEnv) : Decidable (Reads s e) :=
  inferInstanceAs (Decidable (_ ∧ _))

/-- Where the event comes to the read, the MSS is not 0, and it or the client's window is no more
than a packet can carry. -/
def SizesFit (version mss : Nat) (s : Session) : Input → Prop
  | .socket e => Reads s e → 0 < mss ∧
      (mss ≤ payloadRoom version ∨ (getSendWindow s).toNat ≤ payloadRoom version)
  | _ => True

instance (version mss : Nat) (s : Session) : (i : Input) → Decidable (SizesFit version mss s i)
  | .packet _ _ | .socket _ | .monitor _ | .check _ => by unfold SizesFit; infer_instance

/-! ## Lengths of packets -/

theorem promisedLength_tunBytes (p : TunPacket) (after : Memory)
    (hfit : (tunBytes p).length < 2 ^ 16) :
    promisedLength p.version (memoryOf (tunBytes p) after) = (tunBytes p).length := by
  have hlength := Ip.length_tunBytes p
  have hsegment := Ip.length_segmentOf p
  by_cases h : p.version = 4
  · simp only [ipHeaderLength, h, if_true] at hlength
    obtain ⟨check, hip⟩ := Ip.tunBytes_ip4 p h
    have hlocated := Ip.locate_ipv4Header Ip.ipprotoTcp (Ip.segmentOf p) check 0 after
      (Ip.length_ip4 p.saddr) (Ip.length_ip4 p.daddr)
      (by rw [hsegment]) (by omega)
    rw [← hip, ← hlength] at hlocated
    simp only [promisedLength, h, if_true]
    exact hlocated.2.1
  · simp only [ipHeaderLength, h, if_false] at hlength
    have hip : tunBytes p = Ip.ipv6Header Ip.ipprotoTcp (tcpLength p) p.saddr.ip6 p.daddr.ip6 ++
        Ip.segmentOf p := by
      simp only [tunBytes, Ip.ipHeaderOf, h, if_false]
    have hlocated := Ip.locate_ipv6Header Ip.ipprotoTcp (.inl rfl) (Ip.segmentOf p) 0 after
      p.saddr.length_eq p.daddr.length_eq
      (show tcpLength p < 2 ^ 16 by omega)
    rw [← hip] at hlocated
    simp only [promisedLength, h, if_false, hlocated.2.1]
    omega

theorem tun_usable (version : Nat) {st : State} {p : TunPacket} {ok : Bool}
    (h : p.data.length + (Ip.optionBytes p).length ≤ payloadRoom p.version) :
    Usable version (.tun st p ok) := by
  intro after
  apply promisedLength_tunBytes
  rw [Ip.length_tunBytes, tcpLength]
  unfold payloadRoom sizeofTcphdr at h
  unfold sizeofTcphdr
  have hheader : ipHeaderLength p.version ≤ 40 := by
    unfold ipHeaderLength
    split <;> decide
  omega

/-! ## The steps that do not relay -/

/-- The number of bytes a read asks for. -/
def Out.asked : Out → Option Nat
  | .recv _ n _ => some n
  | _ => none

/-- No payload is written, and only the answer of the proxy is read. -/
structure Plain (outs : List Out) : Prop where
  bare : Bare outs
  reads : ∀ o ∈ outs, ∀ n ∈ o.asked, n = 12 ∨ n = 512

theorem Plain.usable {outs : List Out} (h : Plain outs) (version : Nat) :
    ∀ o ∈ outs, Usable version o := by
  intro o ho
  cases o with
  | recv st n got =>
    have hheader : ipHeaderLength version ≤ 40 := by
      unfold ipHeaderLength
      split <;> decide
    have hsize : sizeofTcphdr = 20 := rfl
    rcases h.reads _ ho n rfl with rfl | rfl <;> exact ⟨by decide, by omega⟩
  | tun st p ok =>
    apply tun_usable
    have hdata : p.data.length = 0 := h.bare _ ho
    have hoptions : (Ip.optionBytes p).length ≤ 8 := by
      rcases Ip.doffOf_cases p with ⟨hlen, -⟩ | ⟨hlen, -⟩ <;> omega
    have hroom : 65475 ≤ payloadRoom p.version := by
      unfold payloadRoom ipHeaderLength
      split <;> decide
    omega
  | _ => trivial

theorem Plain.append {outs outs' : List Out} (h : Plain outs)
    (h' : Plain outs') : Plain (outs ++ outs') :=
  ⟨h.bare.append h'.bare, fun o ho => (List.mem_append.mp ho).elim (h.reads o) (h'.reads o)⟩

theorem Plain.cons {o : Out} {outs : List Out} (h : Plain outs) (hoffered : o.offered = 0)
    (hasked : ∀ n ∈ o.asked, n = 12 ∨ n = 512) : Plain (o :: outs) :=
  ⟨h.bare.cons hoffered, List.forall_mem_cons.mpr ⟨hasked, h.reads⟩⟩

theorem Plain.nil : Plain [] := ⟨by simp [Bare], by simp⟩

theorem Bare.plain {outs : List Out} (h : Bare outs)
    (hoff : ∀ o ∈ outs, o.offSocket) : Plain outs := by
  refine ⟨h, fun o ho n hn => ?_⟩
  have hout := hoff o ho
  cases o with
  | recv st n' got => exact hout.elim
  | _ => simp [Out.asked] at hn

theorem writeRst_plain (ok : Bool) (s : Session) : Plain (writeRst ok s).2 :=
  (writeRst_bare ok s).plain (writeRst_offSocket ok s)

theorem handleTcp_plain (abi : Abi) (e : PacketEnv) (p : Packet) (s : Session) :
    Plain (handleTcp abi e p s).2 := by
  refine ⟨handleTcp_bare abi e p s, ?_⟩
  refine handleTcp_cases abi e p s ?_ ?_ ?_ ?_ ?_
  · simp
  · simp
  · exact fun t _ _ _ _ => ((writeRst_plain e.tun.rst t).cons rfl (by simp [Out.asked])).reads
  · simp [Out.asked]
  · intro t _ _ _ _ o ho n hn
    have hout := handleSession_offSocket e p t o ho
    cases o with
    | recv st n' got => exact hout.elim
    | _ => simp [Out.asked] at hn

theorem forwardData_plain (abi : Abi) (e : SocketEnv) (s : Session) :
    Plain (forwardData abi e s).2.2 := by
  refine forwardData_rule (fun _ _ tr => Plain tr) abi e s [] ?_ ?_ Plain.nil
  · exact fun _ _ _ h => h.append (Plain.nil.cons rfl (by simp [Out.asked]))
  · exact fun _ _ _ _ _ _ _ _ h _ _ _ _ => h.append (Plain.nil.cons rfl (by simp [Out.asked]))

theorem ackForwarded_plain (e : SocketEnv) (fwd : Bool) (s : Session) :
    Plain (ackForwarded e fwd s).2 := by
  apply Bare.plain _ (ackForwarded_offSocket e fwd s)
  refine ackForwarded_cases e fwd s ?_ ?_ ?_ <;> simp [Bare, writeTcp]

/-- Every event that does not relay: a reset, the answer of the proxy, or the handshake. -/
theorem checkTcpSocket_plain (abi : Abi) (e : SocketEnv) (s : Session)
    (h : e.ev.err = true ∨ s.state = .listen) :
    Plain (checkTcpSocket abi e s).2 := by
  refine checkTcpSocket_cases abi e s ?_ ?_ ?_ ?_
  · exact fun _ => writeRst_plain _ _
  · intro _ hst _
    refine readReply_cases e s hst ?_ ?_ ?_
    · exact fun _ _ => (writeRst_plain _ s).cons rfl (by simp [Out.asked])
    · exact fun _ _ _ => (writeRst_plain _ s).cons rfl (by simp [Out.asked])
    · intro _ _ _
      have hdrained : Plain (drained e) := by
        constructor
        · simp [Bare, drained]
        · intro o ho n hn
          obtain ⟨b, rfl⟩ := drained_recv ho
          simp only [Out.asked, Option.mem_def, Option.some.injEq] at hn
          exact .inr hn.symm
      exact hdrained.cons rfl (by simp [Out.asked])
  · intro _ hst _
    apply Bare.plain _ (handshake_offSocket e s hst)
    refine handshake_cases e s hst ?_ ?_
    · rintro t rfl
      simp [Bare, writeTcp]
    · rintro t rfl
      simp [Bare, writeTcp]
  · exact fun herr hst => (h.elim (by simp [herr]) hst).elim

/-! ## The read -/

theorem forwardLoop_sent (abi : Abi) (e : SocketEnv) (q : List Segment) (i : Nat) (b : U32)
    (s : Session) :
    (forwardLoop abi e q i b s true).2.1 = true := by
  induction q generalizing i b s with
  | nil => rfl
  | cons g q ih =>
    unfold forwardLoop
    split
    · refine sendHead_cases abi e.tun.rst (e.sends i) (e.after i) s g q true ?_ ?_
      · exact fun _ => rfl
      · intro n hn _
        simp only
        split
        · exact ih (i + 1) _ _
        · rfl
    · rfl

/-- The first segment decides whether anything is sent. -/
theorem forwardData_sent (abi : Abi) (e : SocketEnv) (s : Session) (h : Forwards s e) :
    (forwardData abi e s).2.1 = true := by
  unfold Forwards at h
  unfold forwardData
  cases hq : s.forward with
  | nil => simp [hq] at h
  | cons g q =>
    simp only [hq] at h
    obtain ⟨hout, hcan, hpatch⟩ := h
    rw [if_pos hout, forwardLoop, if_pos hcan]
    refine sendHead_cases abi e.tun.rst (e.sends 0) (e.after 0) s g q false ?_ ?_
    · exact fun hover => absurd hover hpatch
    · intro n hn _
      simp only
      split
      · exact forwardLoop_sent abi e q 1 _ _
      · rfl

theorem forwardData_unsent (abi : Abi) (e : SocketEnv) (s : Session) (h : ¬ Forwards s e) :
    (forwardData abi e s).1 = s ∧ (forwardData abi e s).2.1 = false := by
  by_cases hcan : ∀ g q, s.forward = g :: q → e.ev.out →
    ¬ canForward s g (receiveBuffer s.socket e.sndbuf)
  · rw [forwardData_idle abi e s hcan]
    exact ⟨rfl, rfl⟩
  · push Not at hcan
    obtain ⟨g, q, hq, hout, hcan⟩ := hcan
    have hover : patchHead s.dest (e.after 0) g.rest = .overrun := by
      by_contra hpatch
      apply h
      unfold Forwards
      rw [hq]
      exact ⟨hout, hcan, hpatch⟩
    unfold forwardData
    have hpass : sendHead abi e.tun.rst (e.sends 0) (e.after 0) s g q false =
      ⟨s, false, 0, false, [.crash]⟩ := if_pos hover
    rw [if_pos hout, hq, forwardLoop, if_pos hcan, hpass]
    exact ⟨rfl, rfl⟩

theorem ackForwarded_state (e : SocketEnv) (fwd : Bool) (s : Session) :
    (ackForwarded e fwd s).1.state =
      if (fwd = true ∨ s.recvWindow = 0 ∧ 0 < getReceiveWindow s e.rcvbuf) ∧
      e.tun.ack = false then .closing else s.state := by
  have hacked (t : Session) : (acked e t).state = if e.tun.ack =
      false then .closing else t.state := by
    unfold acked
    cases e.tun.ack <;> rfl
  refine ackForwarded_cases e fwd s ?_ ?_ ?_
  · intro hidle
    rw [if_neg fun h => hidle h.1]
  · rintro t rfl hfwd _ _
    simp only [hacked, hfwd, true_or, true_and]
  · rintro t rfl hack _
    simp only [hacked, hack, true_and]

/-- The session that the read finds. -/
theorem relay_before_read (abi : Abi) (e : SocketEnv) (s : Session) :
    let t := (ackForwarded e (forwardData abi e s).2.1 (forwardData abi e s).1).1
    t.version = s.version ∧ t.mss = s.mss ∧ getSendWindow t = getSendWindow s ∧
      t.state = if Acknowledges s e ∧ e.tun.ack = false then .closing else s.state := by
  intro t
  have hfrozen : t.frozen = s.frozen :=
    (ackForwarded_frozen e _ _).trans (forwardData_frozen abi e s)
  obtain ⟨hsame, -⟩ := forwardData_window abi e s
  obtain ⟨hsame, -⟩ := ackForwarded_window e (forwardData abi e s).2.1 hsame
  have hstate := ackForwarded_state e (forwardData abi e s).2.1 (forwardData abi e s).1
  simp only [Session.frozen, Session.fixed, Session.negotiated, Prod.mk.injEq] at hfrozen
  have hwindow := hsame.window
  simp only [Session.window, Prod.mk.injEq] at hwindow
  refine ⟨hfrozen.1.1, hfrozen.2.1, ?_, ?_⟩
  · unfold getSendWindow
    rw [hwindow.2.2.1, hwindow.2.2.2.1, hwindow.2.2.2.2]
  · rw [hstate, forwardData_state]
    by_cases hf : Forwards s e
    · simp [Acknowledges, hf, forwardData_sent abi e s hf]
    · obtain ⟨hstay, hfwd⟩ := forwardData_unsent abi e s hf
      simp [Acknowledges, hf, hstay, hfwd]

theorem handleEof_plain (e : SocketEnv) (s : Session)
    (hst : s.state = .established ∨ s.state = .closeWait) :
    Plain (handleEof e s).2 := by
  refine handleEof_cases e s hst ?_ ?_ ?_
  · exact fun _ => Bare.plain (by simp [Bare, writeTcp]) (by simp [Out.offSocket])
  · exact fun _ _ => Bare.plain (by simp [Bare, writeTcp]) (by simp [Out.offSocket])
  · exact fun _ _ => Bare.plain (by simp [Bare, writeTcp]) (by simp [Out.offSocket])

/-- A read asks for the smaller of the room and the MSS, and at most one packet carries what it
got. -/
theorem readSocket_outs (e : SocketEnv) (s : Session)
    (hst : s.state = .established ∨ s.state = .closeWait)
    (hread : e.ev.inn = true ∧ 0 < getSendWindow s) :
    ∃ got rest, (readSocket e s).2 = .recv s.state (min (getSendWindow s).toNat s.mss) got :: rest ∧
      (Plain rest ∨ ∃ st t bytes ok, rest = [.tun st (writeTcp t bytes false true false false) ok] ∧
        t.version = s.version ∧ bytes.length ≤ min (getSendWindow s).toNat s.mss) := by
  unfold readSocket
  simp only
  rw [if_pos ⟨hst, hread⟩]
  split
  · split
    · exact ⟨_, _, rfl, .inl (writeRst_plain _ _)⟩
    · exact ⟨_, _, rfl, .inl Plain.nil⟩
  · exact ⟨_, _, rfl, .inl (handleEof_plain e _ hst)⟩
  · rename_i bytes _ hrecv
    have hasked : bytes.length ≤ min (getSendWindow s).toNat s.mss := sockRecv_length hrecv
    exact ⟨_, _, rfl, .inr ⟨_, _, bytes, _, rfl, rfl, hasked⟩⟩

theorem readSocket_usable (e : SocketEnv) (s : Session)
    (hst : s.state = .established ∨ s.state = .closeWait)
    (hread : e.ev.inn = true ∧ 0 < getSendWindow s) :
    (∀ o ∈ (readSocket e s).2, Usable s.version o) ↔
      0 < s.mss ∧ (s.mss ≤ payloadRoom s.version ∨
        (getSendWindow s).toNat ≤ payloadRoom s.version) := by
  obtain ⟨got, rest, houts, hrest⟩ := readSocket_outs e s hst hread
  have hroom : 0 < (getSendWindow s).toNat := BitVec.lt_def.mp hread.2
  have hheader : ipHeaderLength s.version ≤ 40 := by
    unfold ipHeaderLength
    split <;> decide
  have hsize : sizeofTcphdr = 20 := rfl
  have hpayload : payloadRoom s.version = 65535 - ipHeaderLength s.version - sizeofTcphdr := rfl
  rw [houts, List.forall_mem_cons]
  constructor
  · intro ⟨hasked, _⟩
    have hasked : 1 ≤ min (getSendWindow s).toNat s.mss ∧
      min (getSendWindow s).toNat s.mss + (ipHeaderLength s.version + sizeofTcphdr) ≤
        65535 := hasked
    omega
  · intro hfit
    refine ⟨⟨by omega, by omega⟩, ?_⟩
    rcases hrest with hplain | ⟨st, t, bytes, ok, rfl, hversion, hbytes⟩
    · exact hplain.usable s.version
    · rw [List.forall_mem_singleton]
      apply tun_usable
      show bytes.length + 0 ≤ payloadRoom t.version
      rw [hversion]
      omega

theorem readSocket_skip (e : SocketEnv) (s : Session)
    (h : ¬ ((s.state = .established ∨ s.state = .closeWait) ∧ e.ev.inn = true ∧
      0 < getSendWindow s)) :
    readSocket e s = (s, []) := by
  rw [readSocket, if_neg h]

theorem relay_usable (abi : Abi) (e : SocketEnv) (s : Session) (herr : e.ev.err = false) :
    (∀ o ∈ (relay abi e s).2, Usable s.version o) ↔
      (Reads s e → 0 < s.mss ∧
        (s.mss ≤ payloadRoom s.version ∨ (getSendWindow s).toNat ≤ payloadRoom s.version)) := by
  obtain ⟨hversion, hmss, hwindow, hstate⟩ := relay_before_read abi e s
  have hplain := ((forwardData_plain abi e s).append
    (ackForwarded_plain e (forwardData abi e s).2.1 (forwardData abi e s).1)).usable s.version
  have houts : (∀ o ∈ (relay abi e s).2, Usable s.version o) ↔
      ∀ o ∈ (readSocket e (ackForwarded e (forwardData abi e s).2.1 (forwardData abi e s).1).1).2,
      Usable s.version o := by
    show (∀ o ∈ _ ++ _, _) ↔ _
    rw [List.forall_mem_append]
    exact and_iff_right hplain
  rw [houts]
  generalize (ackForwarded e (forwardData abi e s).2.1 (forwardData abi e s).1).1 = t at *
  by_cases hreads : Reads s e
  · have hst : t.state = s.state := by
      rw [hstate, if_neg]
      intro ⟨hack, hfail⟩
      simp [hreads.2.2.2.2 hack] at hfail
    have husable :=
      readSocket_usable e t (hst ▸ hreads.2.2.1) ⟨hreads.2.1, hwindow ▸ hreads.2.2.2.1⟩
    rw [hversion, hmss, hwindow] at husable
    rw [husable]
    exact ⟨fun h _ => h, fun h => h hreads⟩
  · rw [readSocket_skip e t]
    · exact iff_of_true (by simp) (fun h => absurd h hreads)
    · intro ⟨hst, hinn, hroom⟩
      apply hreads
      rw [hwindow] at hroom
      rw [hstate] at hst
      by_cases hfail : Acknowledges s e ∧ e.tun.ack = false
      · rw [if_pos hfail] at hst
        simp at hst
      · rw [if_neg hfail] at hst
        exact ⟨herr, hinn, hst, hroom, fun hack => by simpa using fun h => hfail ⟨hack, h⟩⟩

/-- One step reads and writes usable sizes exactly when its sizes fit. -/
theorem step_usable (abi : Abi) (s : Session) (i : Input) :
    (∀ o ∈ (step abi s i).2, Usable s.version o) ↔ SizesFit s.version s.mss s i := by
  cases i with
  | packet e p => exact iff_of_true ((handleTcp_plain abi e p s).usable s.version) trivial
  | monitor e =>
    refine iff_of_true (Plain.usable ?_ s.version) trivial
    show Plain (if 0 ≤ s.socket then ((monitorTcpSession e s).1, (monitorTcpSession e s).2.2)
      else (s, [])).2
    split
    · exact (monitor_bare e s).plain (monitor_offSocket e s)
    · exact Plain.nil
  | check e =>
    exact iff_of_true (((check_bare e s).plain (check_offSocket e s)).usable s.version) trivial
  | socket e =>
    by_cases h : e.ev.err = true ∨ s.state = .listen
    · refine iff_of_true ((checkTcpSocket_plain abi e s h).usable s.version) fun hreads => ?_
      rcases h with herr | hst
      · simp [hreads.1] at herr
      · have := hreads.2.2.1
        simp [hst] at this
    · push Not at h
      have herr : e.ev.err = false := by simpa using h.1
      have hrelay : checkTcpSocket abi e s = relay abi e s := by
        rw [checkTcpSocket, if_neg (by simp [herr]), if_neg h.2]
      show (∀ o ∈ (checkTcpSocket abi e s).2, _) ↔ _
      rw [hrelay]
      exact relay_usable abi e s herr

/-- Over a run of the session of any SYN. -/
theorem run_usable_iff (abi : Abi) (e : SynEnv) (p : Packet) (is : List Input) :
    Along (step abi) (fun s i => ∀ o ∈ (step abi s i).2, Usable e.version o) (newSession e p) is ↔
      Along (step abi) (fun s i => SizesFit e.version e.mss s i) (newSession e p) is := by
  apply along_iff_of_invariant (step abi) _ _ fun s => s.version = e.version ∧ s.mss = e.mss
  · intro s i ⟨hversion, hmss⟩
    rw [← hversion, ← hmss]
    exact step_usable abi s i
  · intro s i ⟨hversion, hmss⟩ _
    have hfrozen := step_frozen abi s i
    simp only [Session.frozen, Session.fixed, Session.negotiated, Prod.mk.injEq] at hfrozen
    exact ⟨hfrozen.1.1.trans hversion, hfrozen.2.1.trans hmss⟩
  · exact ⟨rfl, rfl⟩

/-- The inputs that connect a session and offer it three bytes. -/
def downloadInputs : List Input :=
  [.socket writable, .packet plainEnv (plainPacket 1001 5001 []), .socket (readable [1, 2, 3])]

def zeroMss : SynEnv := { plainSyn 22 with mss := 0 }

def largeMss : SynEnv := { plainSyn 22 with mss := 65535, ws := 1 }

/-- With an MSS of 0 nothing is asked for, and the session finishes for it; with one of 65535 and a
scaled window a packet of 65575 bytes may be read. -/
theorem run_not_usable :
    (run (step .arm64V8a) (newSession zeroMss (synPacket [])) downloadInputs).1.state = .finWait1 ∧
      ¬ Along (step .arm64V8a) (fun s i => ∀ o ∈ (step .arm64V8a s i).2, Usable zeroMss.version o)
        (newSession zeroMss (synPacket [])) downloadInputs ∧
      ¬ Along (step .arm64V8a) (fun s i => ∀ o ∈ (step .arm64V8a s i).2, Usable largeMss.version o)
        (newSession largeMss (synPacket [])) downloadInputs := by
  refine ⟨by decide +kernel, fun h => ?_, fun h => ?_⟩
  · have husable := h.2.2.1 (.recv .established 0 (some [])) (by decide +kernel)
    exact absurd husable.1 (by decide)
  · have husable := h.2.2.1 (.recv .established 65535 (some [1, 2, 3])) (by decide +kernel)
    exact absurd husable.2 (by decide)

end PdaNetClient.Tcp
