import PdaNetClient.TcpAccounting

/-!
# The proxy handshake

What has to lie in a trace before data of the client may be forwarded: a CONNECT
request taken as a whole, and behind it a reply that begins with a status line
of success. The code asks for neither: a partial send counts as the request, and
any twelve bytes, or none, as the reply.
-/
namespace PdaNetClient.Tcp

open Http Runs

set_option autoImplicit false

/-! ## Traces -/

@[simp] def Out.received : Out → Bytes
  | .recv _ _ (some b) => b
  | _ => []

def received (tr : List Out) : Bytes := tr.flatMap Out.received

@[simp] theorem received_nil : received [] = [] := rfl
@[simp] theorem received_cons (o : Out) (tr : List Out) :
    received (o :: tr) = o.received ++ received tr :=
  rfl
@[simp] theorem received_append (a b : List Out) : received (a ++ b) = received a ++ received b :=
  List.flatMap_append

theorem received_offSocket (tr : List Out) (h : ∀ o ∈ tr, o.offSocket) : received tr = [] := by
  refine List.flatMap_eq_nil_iff.mpr fun o ho => ?_
  have := h o ho
  cases o <;> simp_all [Out.offSocket]

/-- A CONNECT request was taken as a whole, and `Q` holds of all that was received
after it. -/
def Asked (Q : Bytes → Prop) : List Out → Prop
  | [] => False
  | o :: tr =>
    (match o with
      | .connect _ buf (some n) => n = buf.length ∧ Q (received tr)
      | _ => False) ∨ Asked Q tr

instance decidableAsked (Q : Bytes → Prop) [∀ b, Decidable (Q b)] :
    (tr : List Out) → Decidable (Asked Q tr)
  | [] => isFalse id
  | o :: tr =>
    have := decidableAsked Q tr
    have : Decidable (match o with
        | .connect _ buf (some n) => n = buf.length ∧ Q (received tr)
        | _ => False) := by
      split <;> infer_instance
    inferInstanceAs (Decidable (_ ∨ _))

/-- More outputs: what is received by them is added to the reply. -/
theorem Asked.append {Q Q' : Bytes → Prop} {tr : List Out} (h : Asked Q tr) (outs : List Out)
    (hQ : ∀ b, Q b → Q' (b ++ received outs)) : Asked Q' (tr ++ outs) := by
  induction tr with
  | nil => exact absurd h id
  | cons o tr ih =>
    rcases h with h | h
    · left
      split at h
      · exact ⟨h.1, by simpa using hQ _ h.2⟩
      · exact absurd h id
    · exact .inr (ih h)

theorem asked_last {Q : Bytes → Prop} (tr : List Out) (st : State) (buf : Bytes) (hQ : Q []) :
    Asked Q (tr ++ [.connect st buf (some buf.length)]) := by
  induction tr with
  | nil => exact .inl ⟨rfl, hQ⟩
  | cons o tr ih => exact .inr ih

/-- The status line of a reply that opens the tunnel. -/
def ReplyOk (b : Bytes) : Prop := ascii "HTTP/1.0 200" <+: b ∨ ascii "HTTP/1.1 200" <+: b

instance (b : Bytes) : Decidable (ReplyOk b) := inferInstanceAs (Decidable (_ ∨ _))

theorem ReplyOk.append {b : Bytes} (h : ReplyOk b) (c : Bytes) : ReplyOk (b ++ c) :=
  h.imp (fun h => h.trans (List.prefix_append _ _)) fun h => h.trans (List.prefix_append _ _)

/-- The request is out and the proxy agreed. -/
abbrev Tunnelled (tr : List Out) : Prop := Asked ReplyOk tr

theorem tunnelled_append {tr : List Out} (h : Tunnelled tr) (outs : List Out) :
    Tunnelled (tr ++ outs) :=
  h.append outs fun _ hb => hb.append _

/-- The send of a byte of the client's stream. -/
def Out.passesData : Out → Prop
  | .forward _ data _ _ => data ≠ []
  | _ => False

instance : (o : Out) → Decidable o.passesData
  | .tun _ _ _ | .connect _ _ _ | .forward _ _ _ _ | .recv _ _ _ | .remoteFin | .close
      _ | .crash => by
    unfold Out.passesData
    infer_instance

/-- Every send of client data is preceded by an open tunnel. -/
def Gated (tr : List Out) : Prop :=
  ∀ i (h : i < tr.length), tr[i].passesData → Tunnelled (tr.take i)

theorem Gated.append {tr outs : List Out} (h : Gated tr)
    (hnew : ∀ o ∈ outs, o.passesData → Tunnelled tr) : Gated (tr ++ outs) := by
  intro i hi hdata
  by_cases hold : i < tr.length
  · rw [List.getElem_append_left hold] at hdata
    rw [List.take_append_of_le_length (by omega)]
    exact h i hold hdata
  · rw [List.getElem_append_right (by omega)] at hdata
    rw [List.take_append, List.take_of_length_le (by omega)]
    exact tunnelled_append (hnew _ (List.getElem_mem _) hdata) _

theorem Out.offSocket.no_data {o : Out} (h : o.offSocket) : ¬ o.passesData := by
  cases o <;> simp_all [Out.offSocket, Out.passesData]

theorem received_drained (e : SocketEnv) : received (drained e) = (drainLoop e.drain).flatten := by
  unfold drained
  induction drainLoop e.drain with
  | nil => rfl
  | cons c cs ih => simp [ih]

/-! ## The condition -/

/-- What the read of the reply gets, `none` when it fails. -/
def replyBytes (s : Session) (e : SocketEnv) : Option Bytes :=
  match sockRecv s.socket e.recv 12 with
  | .ok bytes => some (bytes ++ (drainLoop e.drain).flatten)
  | .fail _ => none

/-- The forward loop stops before it offers a byte: a segment it takes is empty. -/
def OffersNoData (bufferSize remoteSeq : U32) : List Segment → Prop
  | [] => True
  | g :: q =>
    g.seq + BitVec.ofNat 32 g.sent = remoteSeq → BitVec.ofNat 32 (g.len - g.sent) < bufferSize →
      g.rest = [] ∧ OffersNoData bufferSize remoteSeq q

instance decidableOffersNoData (b seq : U32) : (q : List Segment) → Decidable (OffersNoData b seq q)
  | [] => isTrue trivial
  | _ :: q =>
    have := decidableOffersNoData b seq q
    inferInstanceAs (Decidable (_ → _ → _ ∧ _))

/-- The CONNECT request is taken as a whole, the reply is a failure or a status line
of success, and before it the forward loop has nothing to send. -/
def ReplyChecked (abi : Abi) (s : Session) : Input → Prop
  | .packet e p => p.urg = false → s.connectSent = .notSent →
      ∀ n ≤ (connectRequest (packetHostname abi p s) s.dest).length,
        sockSend s.socket e.send (connectRequest (packetHostname abi p s) s.dest).length = .ok n →
        n = (connectRequest (packetHostname abi p s) s.dest).length
  | .socket e => e.ev.err = false →
      (s.state = .listen → e.ev.inn = true → s.connectSent = .sent →
        ∀ b ∈ replyBytes s e, ReplyOk b) ∧
      (s.state ≠ .listen → s.connectSent ≠ .established → e.ev.out = true →
        OffersNoData (receiveBuffer s.socket e.sndbuf) s.remoteSeq s.forward)
  | _ => True

instance (abi : Abi) (s : Session) : (i : Input) → Decidable (ReplyChecked abi s i)
  | .packet _ _ | .socket _ | .monitor _ | .check _ => by unfold ReplyChecked; infer_instance

/-! ## The invariant -/

structure GateAt (dest : Nat) (connectSent : ConnectSent) (tr : List Out) : Prop where
  port : proxied dest
  sent : connectSent = .sent → Asked (fun b => b = []) tr
  established : connectSent = .established → Tunnelled tr
  gated : Gated tr

abbrev Gate (s : Session) (tr : List Out) : Prop := GateAt s.dest s.connectSent tr

section

variable {s : Session} {dest : Nat} {c : ConnectSent} {tr : List Out}

/-- More outputs: nothing is received while the reply is awaited, and no data goes
out before the tunnel. -/
theorem GateAt.append (h : GateAt dest c tr) (outs : List Out)
    (hrecv : c = .sent → received outs = []) (hdata : ∀ o ∈ outs, o.passesData → c = .established) :
    GateAt dest c (tr ++ outs) := by
  refine ⟨h.port, fun hc => ?_, fun hc => tunnelled_append (h.established hc) outs, ?_⟩
  · exact (h.sent hc).append outs fun b hb => by rw [hb, hrecv hc]; rfl
  · exact h.gated.append fun o ho hpass => h.established (hdata o ho hpass)

theorem GateAt.offSocket (h : GateAt dest c tr) (outs : List Out) (hoff : ∀ o ∈ outs, o.offSocket) :
    GateAt dest c (tr ++ outs) :=
  h.append outs (fun _ => received_offSocket outs hoff) fun o ho hpass =>
    absurd hpass (hoff o ho).no_data

theorem Gate.writeRst (h : Gate s tr) (ok : Bool) :
    Gate (writeRst ok s).1 (tr ++ (writeRst ok s).2) := by
  have hoff := GateAt.offSocket h _ (writeRst_offSocket ok s)
  simpa [Gate] using hoff

theorem Gate.queue (h : Gate s tr) (p : Packet) : Gate (queueTcp p s) tr := by
  simpa [Gate] using h

theorem handleTcp_gate (abi : Abi) (e : PacketEnv) (p : Packet)
    (hi : ReplyChecked abi s (.packet e p)) (h : Gate s tr) :
    Gate (handleTcp abi e p s).1 (tr ++ (handleTcp abi e p s).2) := by
  refine handleTcp_cases abi e p s ?_ ?_ ?_ ?_ ?_
  · intro _
    simpa using h
  · rintro t host rfl _ _ _
    simpa using Gate.queue (s := { s with hostname := host }) h p
  · rintro t rfl _ _ hsent
    have hreq : Gate { s with hostname := packetHostname abi p s }
        (tr ++ [.connect s.state (connectRequest (packetHostname abi p s) s.dest) none]) :=
      GateAt.append h _ (fun _ => rfl) (by simp [Out.passesData])
    simpa using (hreq.writeRst e.tun.rst).queue p
  · rintro t n rfl hurg _ hsent hn
    have hle := (sockSend_ok hn).2.1
    have hfull := hi hurg hsent n hle hn
    refine Gate.queue (s := { s with
      hostname := packetHostname abi p s, connectSent := .sent, state := .listen }) ?_ p
    refine ⟨h.port, fun _ => ?_, by simp, h.gated.append (by simp [Out.passesData])⟩
    rw [hfull]
    exact asked_last tr _ _ rfl
  · rintro t host rfl _ hsent
    have hstay := handleSession_stays e p { s with hostname := host }
    have hoff := GateAt.offSocket h _ (handleSession_offSocket e p { s with hostname := host })
    simp only [Gate, hstay.dest, hstay.connectSent]
    exact hoff

/-- With nothing to send the loop sends nothing. -/
theorem forwardLoop_noData (abi : Abi) (e : SocketEnv) (q : List Segment) (i : Nat) (b : U32)
    (s : Session) (fwd : Bool) (hq : OffersNoData b s.remoteSeq q) :
    ∀ o ∈ (forwardLoop abi e q i b s fwd).2.2, ¬ o.passesData ∧ o.received = [] := by
  induction q generalizing i s fwd with
  | nil => simp [forwardLoop]
  | cons g q ih =>
    unfold forwardLoop
    split
    · rename_i hcan
      obtain ⟨hrest, hmore⟩ := hq hcan.1 hcan.2
      simp only
      refine sendHead_cases abi e.tun.rst (e.sends i) (e.after i) s g q fwd ?_ ?_
      · simp [Out.passesData]
      · intro n hn _
        have hlen : g.len - g.sent = 0 := by rw [← Segment.length_rest, hrest]; rfl
        have hzero : n = 0 := by omega
        have hseq : (passed s g q n hn).remoteSeq = s.remoteSeq := by
          rw [passed_remoteSeq s g q n hn hcan.1, hzero]
          simp
        have hle := g.sent_le_len
        have hwhole : g.len = g.sent + n := by omega
        subst hzero
        have hloop := ih (i + 1) (passed s g q 0 hn) true (by rwa [hseq])
        simpa [hwhole, hrest, Out.passesData] using hloop
    · simp

theorem forwardData_gate (abi : Abi) (e : SocketEnv)
    (hi : s.connectSent ≠ .established → e.ev.out = true →
      OffersNoData (receiveBuffer s.socket e.sndbuf) s.remoteSeq s.forward) (h : Gate s tr) :
    Gate (forwardData abi e s).1 (tr ++ (forwardData abi e s).2.2) := by
  have hkeep : (forwardData abi e s).1.dest = s.dest ∧
      (forwardData abi e s).1.connectSent = s.connectSent :=
    forwardData_rule (fun _ t _ => t.dest = s.dest ∧ t.connectSent = s.connectSent) abi e s []
      (fun _ _ _ => id) (fun _ _ _ _ _ _ _ _ ht _ _ _ _ => ht) ⟨rfl, rfl⟩
  have hnone (hc : s.connectSent ≠ .established) :
      ∀ o ∈ (forwardData abi e s).2.2, ¬ o.passesData ∧ o.received = [] := by
    unfold forwardData
    split
    · rename_i hout
      exact forwardLoop_noData abi e s.forward 0 _ s false (hi hc hout)
    · simp
  simp only [Gate, hkeep.1, hkeep.2]
  refine GateAt.append h _ (fun hc => ?_) fun o ho hpass => ?_
  · exact List.flatMap_eq_nil_iff.mpr fun o ho => (hnone (by simp [hc]) o ho).2
  · by_contra hc
    exact (hnone hc o ho).1 hpass

theorem ackForwarded_gate (e : SocketEnv) (fwd : Bool) (h : Gate s tr) :
    Gate (ackForwarded e fwd s).1 (tr ++ (ackForwarded e fwd s).2) := by
  have hoff := GateAt.offSocket h _ (ackForwarded_offSocket e fwd s)
  have hkeep : (ackForwarded e fwd s).1.dest = s.dest ∧
      (ackForwarded e fwd s).1.connectSent = s.connectSent := by
    have hack (t : Session) : (acked e t).dest = t.dest ∧
        (acked e t).connectSent = t.connectSent := by
      unfold acked
      split <;> exact ⟨rfl, rfl⟩
    refine ackForwarded_cases e fwd s (fun _ => ⟨rfl, rfl⟩) ?_ ?_
    · rintro t rfl _ _ _
      exact hack _
    · rintro t rfl _ _
      exact hack _
  simp only [Gate, hkeep.1, hkeep.2]
  exact hoff

/-- Only a connected session reads. -/
theorem readSocket_gate (e : SocketEnv) (hearly : Early s) (h : Gate s tr) :
    Gate (readSocket e s).1 (tr ++ (readSocket e s).2) := by
  have hconn (hst : s.state = .established ∨ s.state = .closeWait) : s.connectSent ≠ .sent := by
    rw [hearly.connected hst h.port]
    simp
  refine readSocket_cases e s (by simpa using h) ?_ ?_ ?_ ?_ ?_
  · exact fun _ hst =>
      GateAt.append h _ (fun hc => absurd hc (hconn hst)) (by simp [Out.passesData])
  · exact fun _ hst =>
      GateAt.append h _ (fun hc => absurd hc (hconn hst)) (by simp [Out.passesData])
  · intro _ hst
    refine handleEof_cases e { s with time := e.now } hst ?_ ?_ ?_
    · exact fun _ => GateAt.append h _ (fun hc => absurd hc (hconn hst)) (by simp [Out.passesData])
    · exact fun _ _ =>
        GateAt.append h _ (fun hc => absurd hc (hconn hst)) (by simp [Out.passesData])
    · exact fun _ _ =>
        GateAt.append h _ (fun hc => absurd hc (hconn hst)) (by simp [Out.passesData])
  · rintro _ _ t hst _ _ rfl _
    exact GateAt.append h _ (fun hc => absurd hc (hconn hst)) (by simp [Out.passesData])
  · rintro _ _ t hst _ rfl _
    exact GateAt.append h _ (fun hc => absurd hc (hconn hst)) (by simp [Out.passesData])

theorem readReply_gate (e : SocketEnv) (hst : s.state = .listen)
    (hi : s.connectSent = .sent → ∀ b ∈ replyBytes s e, ReplyOk b) (h : Gate s tr) :
    Gate (readReply e s).1 (tr ++ (readReply e s).2) := by
  refine readReply_cases e s hst ?_ ?_ ?_
  · intro err _
    have hrecv : Gate s (tr ++ [.recv .listen 12 none]) :=
      GateAt.append h _ (fun _ => rfl) (by simp [Out.passesData])
    simpa using hrecv.writeRst e.tun.rst
  · intro bytes _ hsent
    have hrecv : Gate s (tr ++ [.recv .listen 12 (some bytes)]) :=
      GateAt.append h _ (fun hc => absurd hc hsent) (by simp [Out.passesData])
    simpa using hrecv.writeRst e.tun.rst
  · intro bytes hbytes hsent
    have hok : ReplyOk (bytes ++ (drainLoop e.drain).flatten) :=
      hi hsent _ (by simp [replyBytes, hbytes])
    refine ⟨h.port, by simp, fun _ => ?_, h.gated.append ?_⟩
    · refine (h.sent hsent).append _ fun b hb => ?_
      simpa [hb, received_drained] using hok
    · intro o ho
      rcases List.mem_cons.mp ho with rfl | ho
      · simp [Out.passesData]
      · obtain ⟨c, -, rfl⟩ := List.mem_map.mp ho
        simp [Out.passesData]

theorem checkTcpSocket_gate (abi : Abi) (e : SocketEnv) (hi : ReplyChecked abi s (.socket e))
    (hearly : Early s) (h : Gate s tr) :
    Gate (checkTcpSocket abi e s).1 (tr ++ (checkTcpSocket abi e s).2) := by
  refine checkTcpSocket_cases abi e s ?_ ?_ ?_ ?_
  · exact fun _ => Gate.writeRst (s := { s with time := e.now }) h e.tun.rst
  · exact fun herr hst hinn => readReply_gate e hst ((hi herr).1 hst hinn) h
  · intro _ hst _
    refine handshake_cases e s hst ?_ ?_
    · rintro t rfl
      exact GateAt.offSocket h _ (by simp [Out.offSocket])
    · rintro t rfl
      exact GateAt.offSocket h _ (by simp [Out.offSocket])
  · intro herr hst
    have hforward := forwardData_gate abi e ((hi herr).2 hst) h
    have hack := ackForwarded_gate e (forwardData abi e s).2.1 hforward
    have hearly' :=
      ackForwarded_early e (forwardData abi e s).2.1 _ (forwardData_early abi e s hearly)
    simpa [relay, List.append_assoc] using readSocket_gate e hearly' hack

theorem step_gate (abi : Abi) (i : Input) (hi : ReplyChecked abi s i) (hearly : Early s)
    (h : Gate s tr) :
    Gate (step abi s i).1 (tr ++ (step abi s i).2) := by
  cases i with
  | packet e p => exact handleTcp_gate abi e p hi h
  | socket e => exact checkTcpSocket_gate abi e hi hearly h
  | monitor e =>
    refine monitorStep_cases abi e s (by simpa using h) ?_
    rintro t ev outs ⟨ms, st, rfl, -, houts⟩
    refine GateAt.offSocket h _ ?_
    rcases houts with houts | ⟨-, houts⟩ <;> simp [houts, Out.offSocket]
  | check e =>
    show Gate (checkTcpSession e s).1 (tr ++ (checkTcpSession e s).2.2)
    have hoff := GateAt.offSocket h _ (check_offSocket e s)
    have hkeep : (checkTcpSession e s).1.dest = s.dest ∧
        (checkTcpSession e s).1.connectSent = s.connectSent := by
      refine checkTcpSession_cases e s (fun _ => ⟨rfl, rfl⟩) (fun _ _ => ⟨rfl, rfl⟩) ?_ ?_
      · rintro fd del t rfl _ _
        exact ⟨rfl, rfl⟩
      · rintro fd del t rfl _ _ _
        exact ⟨rfl, rfl⟩
    simp only [Gate, hkeep.1, hkeep.2]
    exact hoff

end

/-! ## The property -/

/-- The connection to the proxy fails or ends, or what it sent is not the beginning
of a reply that opens the tunnel. -/
def Refuses (b : Option Bytes) : Prop :=
  ∀ r ∈ b, r = [] ∨
    ¬ ReplyOk r ∧ ¬ (r <+: ascii "HTTP/1.0 200") ∧ ¬ (r <+: ascii "HTTP/1.1 200")

/-- An event that tells a session waiting for the proxy that it was refused. -/
def Refused (s : Session) (e : SocketEnv) : Prop :=
  s.state = .listen ∧ s.connectSent = .sent ∧
    (e.ev.err = true ∨ e.ev.inn = true ∧ Refuses (replyBytes s e))

/-- The session is closed with a RST written, and is not connected. -/
def ClientReset (r : Session × List Out) : Prop :=
  r.1.state.closed ∧ r.1.connectSent ≠ .established ∧ ∃ st p ok, .tun st p ok ∈ r.2 ∧ p.rst = true

structure ProxyGated (abi : Abi) (s : Session) (is : List Input) : Prop where
  gated : Gated (run (step abi) s is).2
  established : ∀ before after, is = before ++ after →
    (run (step abi) s before).1.connectSent = .established → Tunnelled (run (step abi) s before).2
  refused : ∀ before e after, is = before ++ .socket e :: after →
    Refused (run (step abi) s before).1 e →
    ClientReset (step abi (run (step abi) s before).1 (.socket e))

theorem writeRst_clientReset (ok : Bool) (s : Session) (outs : List Out)
    (h : s.connectSent ≠ .established) :
    ClientReset ((writeRst ok s).1, outs ++ (writeRst ok s).2) :=
  ⟨writeRst_closed ok s, by simpa using h, _, _, _,
    List.mem_append_right _ (List.mem_singleton.mpr rfl), rfl⟩

/-- Under the condition the only refusals are failures. -/
theorem refused_reset (abi : Abi) (s : Session) (e : SocketEnv)
    (hi : ReplyChecked abi s (.socket e)) (h : Refused s e) :
    ClientReset (step abi s (.socket e)) := by
  obtain ⟨hst, hsent, hrefuse⟩ := h
  show ClientReset (checkTcpSocket abi e s)
  refine checkTcpSocket_cases abi e s ?_ ?_ ?_ ?_
  · exact fun _ => writeRst_clientReset e.tun.rst { s with time := e.now } [] (by simp [hsent])
  · intro herr _ hinn
    obtain ⟨-, hbad⟩ := hrefuse.resolve_left (by simp [herr])
    refine readReply_cases e s hst ?_ ?_ ?_
    · exact fun _ _ => writeRst_clientReset e.tun.rst s [.recv .listen 12 none] (by simp [hsent])
    · exact fun _ _ hne => absurd hsent hne
    · intro bytes hbytes _
      have hmem : bytes ++ (drainLoop e.drain).flatten ∈ replyBytes s e := by
        simp [replyBytes, hbytes]
      have hok := (hi herr).1 hst hinn hsent _ hmem
      rcases hbad _ hmem with hnil | hnot
      · rw [hnil] at hok
        exact absurd hok (by decide)
      · exact absurd hok hnot.1
  · intro herr _ hinn
    obtain ⟨hinn', -⟩ := hrefuse.resolve_left (by simp [herr])
    simp [hinn] at hinn'
  · exact fun _ hne => absurd hst hne

/-- In a run whose replies are checked outside the program, no byte of the client's
goes out before the proxy agreed, and a refusal resets the client. -/
theorem data_waits_for_the_proxy (abi : Abi) (e : SynEnv) (p : Packet) (is : List Input)
    (hport : proxied e.dest) (h : Along (step abi) (ReplyChecked abi) (newSession e p) is) :
    ProxyGated abi (newSession e p) is := by
  have hrun (before : List Input)
    (hb : Along (step abi) (ReplyChecked abi) (newSession e p) before) :
      Gate (run (step abi) (newSession e p) before).1 (run (step abi) (newSession e p) before).2 :=
    (run_invariant (step abi) (ReplyChecked abi) (fun s tr => Early s ∧ Gate s tr)
      (fun s tr i hs hi => ⟨step_early abi s i hs.1, step_gate abi i hi hs.1 hs.2⟩) before
      (newSession e p) ⟨newSession_early e p, hport, by simp, by simp, by simp [Gated]⟩ hb).2
  refine ⟨(hrun is h).gated, ?_, ?_⟩
  · rintro before after rfl
    exact (hrun before ((along_append _ _ _ _ _).mp h).1).established
  · rintro before e' after rfl hrefused
    exact refused_reset abi _ e' ((along_append _ _ _ _ _).mp h).2.1 hrefused

/-- The handshake of a TLS session, the client's ACK, on which the request is sent,
and the reply of the proxy. -/
def connecting (reply : SocketEnv) : List Input :=
  [.socket writable, .packet plainEnv (plainPacket 1001 5001 []), .socket reply]

/-- A tunnel, and data through it. -/
theorem data_waits_for_the_proxy_tunnel :
    ProxyGated .arm64V8a (newSession (plainSyn 443) (synPacket []))
      (connecting { readable (ascii "HTTP/1.0 200") with drain := [ascii " OK\r\n\r\n"] } ++
        [.packet plainEnv (plainPacket 1001 5001 (ascii "AB")), .socket writable]) :=
  data_waits_for_the_proxy _ _ _ _ (by decide) (by decide +kernel)

/-- The proxy answers 403 and the session is connected. -/
theorem refusal_connects :
    ¬ ProxyGated .arm64V8a (newSession (plainSyn 443) (synPacket []))
      (connecting { readable (ascii "HTTP/1.0 403") with
        drain := [ascii " Forbidden\r\n\r\n"] }) := by
  intro h
  have htunnel := h.established _ [] (List.append_nil _).symm (by decide +kernel)
  exact absurd htunnel (by decide +kernel)

end PdaNetClient.Tcp
