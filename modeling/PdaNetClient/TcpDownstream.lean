import PdaNetClient.TcpConnect
import PdaNetClient.Numbered

/-!
# Downstream

The payload written to tun against what was read from the socket. Every read but
those in LISTEN is written at once, in order of the sequence numbers. A reply to the
CONNECT request is read in one go and thrown away as a whole, wherever its blank
line is.
-/
namespace PdaNetClient.Tcp

open Numbered Runs

set_option autoImplicit false

/-! ## Payload and stream -/

/-- The payload a packet brings to the client, under its sequence number. -/
def Out.segment : Out → List (U32 × Bytes)
  | .tun _ p true => if p.data = [] then [] else [(p.seq, p.data)]
  | _ => []

def segments (tr : List Out) : List (U32 × Bytes) := tr.flatMap Out.segment

def payload (tr : List Out) : Bytes := (segments tr).flatMap Prod.snd

@[simp] theorem segments_nil : segments [] = [] := rfl
@[simp] theorem segments_append (a b : List Out) : segments (a ++ b) = segments a ++ segments b :=
  List.flatMap_append
@[simp] theorem payload_append (a b : List Out) : payload (a ++ b) = payload a ++ payload b := by
  simp [payload]

/-- What was received since the CONNECT request was accepted. -/
def Out.answer (acc : Option Bytes) : Out → Option Bytes
  | .connect _ _ (some _) => some []
  | .recv _ _ (some b) => acc.map (· ++ b)
  | _ => acc

def answer (tr : List Out) : Option Bytes := tr.foldl Out.answer none

theorem answer_append (a b : List Out) : answer (a ++ b) = b.foldl Out.answer (answer a) :=
  List.foldl_append

/-- What follows the first blank line. -/
def afterBlank : Bytes → Option Bytes
  | [] => none
  | c :: b => if ascii "\r\n\r\n" <+: c :: b then some ((c :: b).drop 4) else afterBlank b

/-- The remote stream: everything received, or what follows the header of the reply
to the CONNECT request. -/
def stream (dest : Nat) (tr : List Out) : Bytes :=
  if proxied dest then ((answer tr).bind afterBlank).getD [] else received tr

def Out.failed : Out → Prop
  | .tun _ _ ok => ok = false
  | _ => False

/-- Behind a failed write no payload is written. -/
def StopsOnFailure : List Out → Prop
  | [] => True
  | o :: tr => (o.failed → segments tr = []) ∧ StopsOnFailure tr

/-- The payload in order of its numbers is a prefix of the remote stream, all of it
while the session is open. -/
structure Delivers (dest : Nat) (st : State) (tr : List Out) : Prop where
  kept : payload tr <+: stream dest tr
  complete : ¬ st.closed → payload tr = stream dest tr
  ordered : ∃ first, Contiguous first (segments tr)
  stops : StopsOnFailure tr

/-- The reply is read up to the end of its header and no further, and no CONNECT
request is accepted for a closed session. -/
def HeaderRead (abi : Abi) (s : Session) : Input → Prop
  | .packet e p => p.urg = false → proxied s.dest → s.connectSent = .notSent → s.state.closed →
      (sockSend s.socket e.send
        (connectRequest (packetHostname abi p s) s.dest).length).count = none
  | .socket e => e.ev.err = false → s.state = .listen → e.ev.inn = true → s.connectSent = .sent →
      ∀ b ∈ replyBytes s e, afterBlank b = some []
  | _ => True

instance (abi : Abi) (s : Session) : (i : Input) → Decidable (HeaderRead abi s i)
  | .packet _ _ | .socket _ | .monitor _ | .check _ => by unfold HeaderRead; infer_instance

theorem afterBlank_length {b r : Bytes} (h : afterBlank b = some r) : 4 ≤ b.length := by
  induction b with
  | nil => simp [afterBlank] at h
  | cons c b ih =>
    unfold afterBlank at h
    split at h
    · rename_i hpre
      simpa [ascii] using hpre.length_le
    · have := ih h
      simp only [List.length_cons]
      omega

/-- More bytes behind a blank line are more bytes behind it. -/
theorem afterBlank_append {b r : Bytes} (h : afterBlank b = some r) (x : Bytes) :
    afterBlank (b ++ x) = some (r ++ x) := by
  induction b with
  | nil => simp [afterBlank] at h
  | cons c b ih =>
    have hlen := afterBlank_length h
    unfold afterBlank at h
    rw [List.cons_append, afterBlank]
    by_cases hpre : ascii "\r\n\r\n" <+: c :: b
    · rw [if_pos hpre] at h
      rw [if_pos (hpre.trans (by rw [← List.cons_append]; exact List.prefix_append _ _)),
        ← Option.some.inj h, ← List.cons_append, List.drop_append_of_le_length hlen]
    · rw [if_neg hpre] at h
      have hnot : ¬ ascii "\r\n\r\n" <+: c :: (b ++ x) := by
        rw [← List.cons_append]
        exact fun hx => hpre (List.prefix_of_prefix_length_le hx (List.prefix_append _ _)
          (by simpa [ascii] using hlen))
      rw [if_neg hnot]
      exact ih h

theorem StopsOnFailure.append {tr outs : List Out} (h : StopsOnFailure tr)
    (hnew : StopsOnFailure outs) (hdry : (∃ o ∈ tr, o.failed) → segments outs = []) :
    StopsOnFailure (tr ++ outs) := by
  induction tr with
  | nil => exact hnew
  | cons o tr ih =>
    refine ⟨fun ho => ?_, ih h.2 fun ⟨x, hx, hfail⟩ => hdry ⟨x, by simp [hx], hfail⟩⟩
    have hrest := hdry ⟨o, by simp, ho⟩
    simpa [hrest] using h.1 ho

/-! ## Outputs without payload -/

/-- Neither payload for the client nor bytes of the remote stream. -/
def Out.dry : Out → Prop
  | .tun _ p ok => p.data = [] ∨ ok = false
  | .recv _ _ (some b) => b = []
  | .connect _ _ (some _) => False
  | _ => True

theorem segments_dry (outs : List Out) (h : ∀ o ∈ outs, o.dry) : segments outs = [] := by
  refine List.flatMap_eq_nil_iff.mpr fun o ho => ?_
  have := h o ho
  cases o with
  | tun st p ok => cases ok <;> simp_all [Out.segment, Out.dry]
  | _ => rfl

theorem received_dry (outs : List Out) (h : ∀ o ∈ outs, o.dry) : received outs = [] := by
  refine List.flatMap_eq_nil_iff.mpr fun o ho => ?_
  have := h o ho
  cases o with
  | recv st n got => cases got <;> simp_all [Out.dry]
  | _ => rfl

/-- Outputs that do not concern the answer of the proxy. -/
theorem foldl_answer {outs : List Out} {acc : Option Bytes}
    (h : ∀ o ∈ outs, Out.answer acc o = acc) :
    outs.foldl Out.answer acc = acc := by
  induction outs with
  | nil => rfl
  | cons o outs ih =>
    rw [List.foldl_cons, h o List.mem_cons_self]
    exact ih fun x hx => h x (List.mem_cons_of_mem o hx)

theorem answer_dry (outs : List Out) (h : ∀ o ∈ outs, o.dry) (acc : Option Bytes) :
    outs.foldl Out.answer acc = acc := by
  refine foldl_answer fun o ho => ?_
  have := h o ho
  cases o with
  | recv st n got => cases got <;> cases acc <;> simp_all [Out.answer, Out.dry]
  | connect st buf n => cases n <;> simp_all [Out.answer, Out.dry]
  | _ => rfl

theorem stops_dry (outs : List Out) (h : ∀ o ∈ outs, o.dry) : StopsOnFailure outs := by
  induction outs with
  | nil => trivial
  | cons o outs ih =>
    have hrest : ∀ x ∈ outs, x.dry := fun x hx => h x (by simp [hx])
    exact ⟨fun _ => segments_dry outs hrest, ih hrest⟩

theorem stops_of_not_failed (outs : List Out) (h : ∀ o ∈ outs, ¬ o.failed) :
    StopsOnFailure outs := by
  induction outs with
  | nil => trivial
  | cons o outs ih =>
    exact ⟨fun ho => absurd ho (h o (by simp)), ih fun x hx => h x (by simp [hx])⟩

/-- The states in which nothing was relayed yet. -/
def State.starting (st : State) : Prop := st = .listen ∨ st = .synRecv

/-- The states that read from the socket. -/
def State.reading (st : State) : Prop := st = .established ∨ st = .closeWait

/-- A phase that delivers nothing. A failed write closes; a closed session stays
closed, and one that starts was starting; the number of the next payload stays. -/
structure Dry (s t : Session) (outs : List Out) : Prop where
  dest : t.dest = s.dest
  connectSent : t.connectSent = s.connectSent
  dry : ∀ o ∈ outs, o.dry
  failed : ∀ o ∈ outs, o.failed → t.state.closed
  closed : s.state.closed → t.state.closed
  starting : t.state.starting → s.state.starting
  reading : t.state.reading → s.state.starting ∨ s.state.reading ∧ t.localSeq = s.localSeq

theorem Dry.refl (s : Session) : Dry s s [] :=
  ⟨rfl, rfl, by simp, by simp, id, id, fun h => .inr ⟨h, rfl⟩⟩

theorem not_reading_of_closed {st : State} (h : st.closed) : ¬ st.reading := by
  rcases h with rfl | rfl <;> simp [State.reading]

theorem not_starting_of_closed {st : State} (h : st.closed) : ¬ st.starting := by
  rcases h with rfl | rfl <;> simp [State.starting]

/-- A phase that closes. -/
theorem Dry.of_closed {s t : Session} {outs : List Out} (hdest : t.dest = s.dest)
    (hsent : t.connectSent = s.connectSent) (hdry : ∀ o ∈ outs, o.dry) (hclosed : t.state.closed) :
    Dry s t outs :=
  ⟨hdest, hsent, hdry, fun _ _ _ => hclosed, fun _ => hclosed,
    fun h => absurd h (not_starting_of_closed hclosed),
    fun h => absurd h (not_reading_of_closed hclosed)⟩

theorem Dry.trans {s t u : Session} {a b : List Out} (h : Dry s t a) (h' : Dry t u b) :
    Dry s u (a ++ b) := by
  refine ⟨h'.dest.trans h.dest, h'.connectSent.trans h.connectSent, ?_, ?_, h'.closed ∘ h.closed,
    h.starting ∘ h'.starting, fun hu => ?_⟩
  · intro o ho
    exact (List.mem_append.mp ho).elim (h.dry o) (h'.dry o)
  · intro o ho hfail
    exact (List.mem_append.mp ho).elim (fun ho => h'.closed (h.failed o ho hfail)) fun ho =>
      h'.failed o ho hfail
  · rcases h'.reading hu with ht | ⟨ht, hseq⟩
    · exact .inl (h.starting ht)
    · exact (h.reading ht).imp_right fun ⟨hs, hseq'⟩ => ⟨hs, hseq.trans hseq'⟩

/-! ## The invariant -/

structure DownAt (dest : Nat) (connectSent : ConnectSent) (st : State) (localSeq : U32)
    (tr : List Out) :
    Prop extends Delivers dest st tr where
  port : connectSent ≠ .notSent → proxied dest
  notSent : proxied dest → connectSent = .notSent → answer tr = none
  sent : proxied dest → connectSent = .sent → answer tr = some []
  established : proxied dest → connectSent = .established →
    ((answer tr).bind afterBlank).isSome = true
  starting : st.starting → segments tr = []
  early : proxied dest → connectSent ≠ .established → segments tr = []
  failed : (∃ o ∈ tr, o.failed) → st.closed
  next : st.reading → segments tr = [] ∨
    ∃ first, Contiguous first (segments tr) ∧ first + BitVec.ofNat 32 (payload tr).length = localSeq

abbrev Down (s : Session) (tr : List Out) : Prop :=
  DownAt s.dest s.connectSent s.state s.localSeq tr

section

variable {s t : Session} {tr : List Out}

theorem stream_dry (dest : Nat) (tr outs : List Out) (h : ∀ o ∈ outs, o.dry) :
    stream dest (tr ++ outs) = stream dest tr := by
  simp only [stream, answer_append, answer_dry outs h, received_append, received_dry outs h,
    List.append_nil]

theorem Down.dry (h : Down s tr) {outs : List Out} (hd : Dry s t outs) : Down t (tr ++ outs) := by
  have hseg : segments (tr ++ outs) = segments tr := by simp [segments_dry outs hd.dry]
  have hpay : payload (tr ++ outs) = payload tr := by rw [payload, hseg, payload]
  have hans : answer (tr ++ outs) = answer tr := by rw [answer_append, answer_dry outs hd.dry]
  have hstream := stream_dry t.dest tr outs hd.dry
  simp only [Down, hd.dest, hd.connectSent] at hstream ⊢
  constructor
  · constructor
    · rw [hpay, hstream]
      exact h.kept
    · rw [hpay, hstream]
      exact fun hopen => h.complete fun hc => hopen (hd.closed hc)
    · rw [hseg]
      exact h.ordered
    · exact h.stops.append (stops_dry outs hd.dry) fun _ => segments_dry outs hd.dry
  · exact h.port
  · exact fun hport hc => hans.trans (h.notSent hport hc)
  · exact fun hport hc => hans.trans (h.sent hport hc)
  · rw [hans]
    exact h.established
  · exact fun hst => hseg.trans (h.starting (hd.starting hst))
  · exact fun hport hc => hseg.trans (h.early hport hc)
  · rintro ⟨o, ho, hfail⟩
    rcases List.mem_append.mp ho with ho | ho
    · exact hd.closed (h.failed ⟨o, ho, hfail⟩)
    · exact hd.failed o ho hfail
  · intro hst
    rw [hseg, hpay]
    rcases hd.reading hst with hs | ⟨hs, hseq⟩
    · exact .inl (h.starting hs)
    · rw [hseq]
      exact h.next hs

theorem answer_offSocket (outs : List Out) (h : ∀ o ∈ outs, o.offSocket) (acc : Option Bytes) :
    outs.foldl Out.answer acc = acc := by
  refine foldl_answer fun o ho => ?_
  have := h o ho
  cases o <;> simp_all [Out.answer, Out.offSocket]

theorem answer_recv (tr outs : List Out) (st : State) (n : Nat) (b : Bytes)
    (h : ∀ o ∈ outs, o.offSocket) :
    answer (tr ++ .recv st n (some b) :: outs) = (answer tr).map (· ++ b) := by
  rw [answer_append, List.foldl_cons, answer_offSocket outs h]
  rfl

/-- Behind the header every byte received is one of the stream. -/
theorem stream_recv {dest : Nat} (tr outs : List Out) (st : State) (n : Nat) (b : Bytes)
    (h : ∀ o ∈ outs, o.offSocket)
    (hblank : proxied dest → ((answer tr).bind afterBlank).isSome = true) :
    stream dest (tr ++ .recv st n (some b) :: outs) = stream dest tr ++ b := by
  unfold stream
  split
  · rename_i hport
    obtain ⟨r, hr⟩ := Option.isSome_iff_exists.mp (hblank hport)
    obtain ⟨a, ha, har⟩ := Option.bind_eq_some_iff.mp hr
    rw [answer_recv tr outs st n b h, ha]
    simp [har, afterBlank_append har b]
  · simp [received_offSocket outs h]

theorem established_recv (tr outs : List Out) (st : State) (n : Nat) (b : Bytes)
    (h : ∀ o ∈ outs, o.offSocket) (hblank : ((answer tr).bind afterBlank).isSome = true) :
    ((answer (tr ++ .recv st n (some b) :: outs)).bind afterBlank).isSome = true := by
  obtain ⟨r, hr⟩ := Option.isSome_iff_exists.mp hblank
  obtain ⟨a, ha, har⟩ := Option.bind_eq_some_iff.mp hr
  rw [answer_recv tr outs st n b h, ha]
  simp [afterBlank_append har b]

/-- While the session is open no write to it has failed. -/
theorem Down.none_failed (h : Down s tr) (hopen : ¬ s.state.closed) {outs : List Out}
    (houts : ∀ o ∈ outs, ¬ o.failed) :
    ¬ ∃ o ∈ tr ++ outs, o.failed := by
  rintro ⟨o, ho, hfail⟩
  rcases List.mem_append.mp ho with ho | ho
  · exact hopen (h.failed ⟨o, ho, hfail⟩)
  · exact houts o ho hfail

/-- A CONNECT request is accepted: nothing was relayed before it. -/
theorem Down.requested (h : Down s tr) (hport : proxied s.dest) (hsent : s.connectSent = .notSent)
    (hopen : ¬ s.state.closed) (st : State) (buf : Bytes) (n : Nat) :
    DownAt s.dest .sent .listen s.localSeq (tr ++ [.connect st buf (some n)]) := by
  have hnil : segments tr = [] := h.early hport (by simp [hsent])
  have hseg : segments (tr ++ [.connect st buf (some n)]) = [] := by
    rw [segments_append, hnil]
    rfl
  have hans : answer (tr ++ [.connect st buf (some n)]) = some [] := by
    simp [answer_append, Out.answer]
  have hall : payload (tr ++ [.connect st buf (some n)]) =
      stream s.dest (tr ++ [.connect st buf (some n)]) := by
    simp [payload, hseg, stream, hport, hans, afterBlank]
  constructor
  · constructor
    · rw [hall]
    · exact fun _ => hall
    · exact ⟨0, by simp [hseg, Contiguous]⟩
    · exact h.stops.append ⟨by simp [Out.failed], trivial⟩ fun _ => by simp [segments, Out.segment]
  · exact fun _ => hport
  · exact fun _ hc => absurd hc (by simp)
  · exact fun _ _ => hans
  · exact fun _ hc => absurd hc (by simp)
  · exact fun _ => hseg
  · exact fun _ _ => hseg
  · exact fun hfail => absurd hfail (h.none_failed hopen (by simp [Out.failed]))
  · simp [State.reading]

theorem answer_drained (e : SocketEnv) (acc : Option Bytes) :
    (drained e).foldl Out.answer acc = acc.map (· ++ (drainLoop e.drain).flatten) := by
  unfold drained
  induction drainLoop e.drain generalizing acc with
  | nil => simp
  | cons c cs ih =>
    rw [List.map_cons, List.foldl_cons, ih]
    cases acc <;> simp [Out.answer]

/-- The reply is only read. -/
theorem reply_reads (e : SocketEnv) (n : Nat) (b : Bytes) :
    ∀ o ∈ Out.recv .listen n (some b) :: drained e, o.segment = [] ∧ ¬ o.failed := by
  refine List.forall_mem_cons.mpr ⟨⟨rfl, by simp [Out.failed]⟩, fun o ho => ?_⟩
  obtain ⟨c, -, rfl⟩ := List.mem_map.mp ho
  exact ⟨rfl, by simp [Out.failed]⟩

/-- The reply is read up to its blank line: the stream is still empty. -/
theorem Down.answered (h : Down s tr) (hopen : ¬ s.state.closed) (hport : proxied s.dest)
    (hsent : s.connectSent = .sent) (e : SocketEnv) (n : Nat) (b : Bytes)
    (hblank : afterBlank (b ++ (drainLoop e.drain).flatten) = some []) :
    DownAt s.dest .established .established s.localSeq
      (tr ++ .recv .listen n (some b) :: drained e) := by
  have hreads := reply_reads e n b
  have hquiet : segments (.recv .listen n (some b) :: drained e) = [] :=
    List.flatMap_eq_nil_iff.mpr fun o ho => (hreads o ho).1
  have hnofail : ∀ o ∈ Out.recv .listen n (some b) :: drained e, ¬ o.failed :=
    fun o ho => (hreads o ho).2
  have hnil : segments tr = [] := h.early hport (by simp [hsent])
  have hseg : segments (tr ++ .recv .listen n (some b) :: drained e) = [] := by simp [hnil, hquiet]
  have hans : answer (tr ++ .recv .listen n (some b) :: drained e) =
      some (b ++ (drainLoop e.drain).flatten) := by
    rw [answer_append, List.foldl_cons, h.sent hport hsent, answer_drained]
    simp [Out.answer]
  have hall : payload (tr ++ .recv .listen n (some b) :: drained e) =
      stream s.dest (tr ++ .recv .listen n (some b) :: drained e) := by
    simp [payload, hseg, stream, hport, hans, hblank]
  constructor
  · constructor
    · rw [hall]
    · exact fun _ => hall
    · exact ⟨0, by simp [hseg, Contiguous]⟩
    · refine h.stops.append ?_ fun _ => hquiet
      exact stops_of_not_failed _ hnofail
  · exact fun _ => hport
  · exact fun _ hc => absurd hc (by simp)
  · exact fun _ hc => absurd hc (by simp)
  · intro _ _
    rw [hans, Option.bind_some, hblank]
    rfl
  · exact fun _ => hseg
  · exact fun _ _ => hseg
  · exact fun hfail => absurd hfail (h.none_failed hopen hnofail)
  · exact fun _ => .inl hseg

/-- Bytes are read and not written, and the session is closed. -/
theorem Down.unwritten (h : Down s tr) {outs : List Out} (hd : Dry s t outs)
    (hoff : ∀ o ∈ outs, o.offSocket) (hclosed : t.state.closed) (hsent : s.connectSent ≠ .sent)
    (hpre : s.state.reading → proxied s.dest → s.connectSent = .established)
    (hst : s.state.starting ∨ s.state.reading) (st : State) (n : Nat) (b : Bytes) :
    Down t (tr ++ .recv st n (some b) :: outs) := by
  have hseg : segments (tr ++ .recv st n (some b) :: outs) = segments tr := by
    rw [segments_append]
    simpa [segments, Out.segment] using segments_dry outs hd.dry
  have hpay : payload (tr ++ .recv st n (some b) :: outs) = payload tr := by
    rw [payload, hseg, payload]
  simp only [Down, hd.dest, hd.connectSent]
  constructor
  · constructor
    · rw [hpay]
      rcases hst with hst | hst
      · simp [payload, h.starting hst]
      · rw [stream_recv tr outs st n b hoff fun hport => h.established hport (hpre hst hport)]
        exact h.kept.trans (List.prefix_append _ _)
    · exact fun hopen => absurd hclosed hopen
    · rw [hseg]
      exact h.ordered
    · refine h.stops.append ⟨by simp [Out.failed], stops_dry outs hd.dry⟩ fun _ => ?_
      simpa [segments, Out.segment] using segments_dry outs hd.dry
  · exact h.port
  · intro hport hc
    rw [answer_recv tr outs st n b hoff, h.notSent hport hc]
    rfl
  · exact fun _ hc => absurd hc hsent
  · exact fun hport hc => established_recv tr outs st n b hoff (h.established hport hc)
  · exact fun hst' => absurd hst' (not_starting_of_closed hclosed)
  · exact fun hport hc => hseg.trans (h.early hport hc)
  · exact fun _ => hclosed
  · exact fun hst' => absurd hst' (not_reading_of_closed hclosed)

/-- Bytes under the next number stay in order. -/
theorem Down.follows (h : Down s tr) (hst : s.state.reading) (b : Bytes) :
    ∃ first, Contiguous first (segments tr ++ [(s.localSeq, b)]) ∧
      first + BitVec.ofNat 32 (payload tr ++ b).length = s.localSeq + BitVec.ofNat 32 b.length := by
  rcases h.next hst with hnil | ⟨first, hcont, hend⟩
  · exact ⟨s.localSeq, by simp [hnil, Contiguous], by simp [payload, hnil]⟩
  · refine ⟨first, ?_, ?_⟩
    · rw [← hend]
      exact hcont.append b
    · rw [List.length_append, BitVec.ofNat_add, ← BitVec.add_assoc, hend]

/-- Bytes are read and written under the next number. -/
theorem Down.written (h : Down s tr) (hst : s.state.reading)
    (hpre : proxied s.dest → s.connectSent = .established) (st : State) (n : Nat) {b : Bytes}
    (hb : b ≠ []) (p : TunPacket) (hp : p.data = b) (hseq : p.seq = s.localSeq)
    (hdest : t.dest = s.dest) (hsent : t.connectSent = s.connectSent) (hstate : t.state = s.state)
    (hnext : t.localSeq = s.localSeq + BitVec.ofNat 32 b.length) :
    Down t (tr ++ [.recv st n (some b), .tun st p true]) := by
  have hoff : ∀ o ∈ [Out.tun st p true], o.offSocket := by simp [Out.offSocket]
  have hopen : ¬ s.state.closed := fun hc => not_reading_of_closed hc hst
  have hseg : segments (tr ++ [.recv st n (some b), .tun st p true]) =
      segments tr ++ [(s.localSeq, b)] := by
    simp [segments, Out.segment, hp, hb, hseq]
  have hpay : payload (tr ++ [.recv st n (some b), .tun st p true]) = payload tr ++ b := by
    simp [payload, hseg]
  have hstream :=
    stream_recv tr [.tun st p true] st n b hoff fun hport => h.established hport (hpre hport)
  have hall : payload (tr ++ [.recv st n (some b), .tun st p true]) =
      stream s.dest (tr ++ [.recv st n (some b), .tun st p true]) := by
    rw [hpay, hstream, h.complete hopen]
  have horder := h.follows hst b
  simp only [Down, hdest, hsent, hstate, hnext]
  constructor
  · constructor
    · rw [hall]
    · exact fun _ => hall
    · rw [hseg]
      exact horder.imp fun _ hx => hx.1
    · refine h.stops.append ⟨by simp [Out.failed], by simp [Out.failed], trivial⟩ fun hfail => ?_
      exact absurd (h.failed hfail) hopen
  · exact h.port
  · exact fun hport hc => absurd (hpre hport) (by simp [hc])
  · exact fun hport hc => absurd (hpre hport) (by simp [hc])
  · exact fun hport hc => established_recv tr _ st n b hoff (h.established hport hc)
  · intro hs
    rcases hst with hst | hst <;> simp [hst, State.starting] at hs
  · exact fun hport hc => absurd (hpre hport) hc
  · exact fun hfail => absurd hfail (h.none_failed hopen (by simp [Out.failed]))
  · intro _
    rw [hseg, hpay]
    exact .inr horder

end

/-! ## Phases without payload -/

theorem writeRst_dry (ok : Bool) (s : Session) : Dry s (writeRst ok s).1 (writeRst ok s).2 :=
  .of_closed (writeRst_dest ok s) (writeRst_connectSent ok s)
    (by simp [writeRst, Out.dry, writeTcp])
    (writeRst_closed ok s)

theorem handleFin_dry (e : PacketEnv) (s : Session) :
    Dry s (handleFin e s).1 (handleFin e s).2 := by
  refine handleFin_cases e s (.refl s) ?_ ?_ ?_
  · intro hst _
    exact ⟨rfl, rfl, by simp, by simp, by simp [hst], by simp [State.starting],
      fun _ => .inr ⟨.inl hst, rfl⟩⟩
  · rintro t rfl hst _
    cases hok : e.tun.ack
    · exact .of_closed rfl rfl (by simp [Out.dry, writeTcp]) closed_closing
    · exact ⟨rfl, rfl, by simp [Out.dry, writeTcp], by simp [Out.failed], by simp [hst],
        by simp [State.starting], fun _ => .inr ⟨.inl hst, rfl⟩⟩
  · rintro t rfl hst
    cases hok : e.tun.ack
    · exact .of_closed rfl rfl (by simp [Out.dry, writeTcp]) closed_closing
    · exact .of_closed rfl rfl (by simp [Out.dry, writeTcp]) closed_close

theorem handleFlags_dry (e : PacketEnv) (p : Packet) (s : Session) :
    Dry s (handleFlags e p s).1 (handleFlags e p s).2 := by
  refine handleFlags_cases e p s (.refl s) ?_ ?_ ?_ ?_ ?_
  · exact .of_closed rfl rfl (by simp) closed_closing
  · exact fun _ _ _ _ => handleFin_dry e s
  · rintro st rfl _
    refine ⟨rfl, rfl, by simp, by simp, ?_, ?_, ?_⟩ <;>
      cases hst : s.state <;> simp [State.closed, State.starting, State.reading]
  · intro _ _
    exact ⟨rfl, rfl, by simp, by simp, id, id, fun h => .inr ⟨h, rfl⟩⟩
  · exact fun _ _ => writeRst_dry _ s

/-- The fields that a phase without payload reads. -/
theorem Dry.congr {s s' t : Session} {outs : List Out} (h : Dry s t outs) (hdest : s'.dest = s.dest)
    (hsent : s'.connectSent = s.connectSent) (hst : s'.state = s.state)
    (hseq : s'.localSeq = s.localSeq) :
    Dry s' t outs :=
  ⟨h.dest.trans hdest.symm, h.connectSent.trans hsent.symm, h.dry, h.failed,
    fun hc => h.closed (hst ▸ hc), fun hc => hst ▸ h.starting hc, fun hc => by
    rw [hst, hseq]; exact h.reading hc⟩

theorem handleSession_dry (e : PacketEnv) (p : Packet) (s : Session) :
    Dry s (handleSession e p s).1 (handleSession e p s).2 := by
  refine handleSession_cases e p s ?_ ?_ ?_ ?_
  · exact fun _ => writeRst_dry _ s
  · rintro t w rfl _ _ _
    exact (writeRst_dry e.tun.rst { s with time := e.now, sendWindow := w }).congr rfl rfl rfl rfl
  · rintro t w rfl _ _
    exact (handleFlags_dry e p { s with time := e.now, sendWindow := w }).congr rfl rfl rfl rfl
  · rintro t w rfl _ _ _ _
    exact (handleFlags_dry e p (queueTcp p { s with time := e.now, sendWindow := w })).congr
      (by simp) (by simp) (by simp) (by simp)

theorem forwardData_dry (abi : Abi) (e : SocketEnv) (s : Session) :
    Dry s (forwardData abi e s).1 (forwardData abi e s).2.2 := by
  have hrule := forwardData_rule
    (fun _ t tr => (t.dest = s.dest ∧ t.connectSent = s.connectSent ∧ t.state = s.state ∧
      t.localSeq = s.localSeq) ∧ ∀ o ∈ tr, o.dry ∧ ¬ o.failed) abi e s []
    (fun _ t tr ht => ⟨ht.1, by simpa [Out.dry, Out.failed, or_imp, forall_and] using ht.2⟩)
    (fun _ _ t tr _ _ _ _ ht _ _ _ _ =>
      ⟨ht.1, by simpa [Out.dry, Out.failed, or_imp, forall_and] using ht.2⟩)
    ⟨⟨rfl, rfl, rfl, rfl⟩, by simp⟩
  simp only [List.nil_append] at hrule
  obtain ⟨⟨hdest, hsent, hst, hseq⟩, houts⟩ := hrule
  refine ⟨hdest, hsent, fun o ho => (houts o ho).1,
    fun o ho hfail => absurd hfail (houts o ho).2, ?_, ?_, ?_⟩
  · rw [hst]
    exact id
  · rw [hst]
    exact id
  · rw [hst]
    exact fun h => .inr ⟨h, hseq⟩

/-- An acknowledgement, whatever number it carries; only its own write may fail. -/
theorem acked_dry (e : SocketEnv) {s t : Session} {outs : List Out} (hdest : t.dest = s.dest)
    (hsent : t.connectSent = s.connectSent) (hstate : t.state = s.state)
    (hseq : t.localSeq = s.localSeq) (hdry : ∀ o ∈ outs, o.dry)
    (hfailed : ∀ o ∈ outs, o.failed → e.tun.ack = false) : Dry s (acked e t) outs := by
  unfold acked
  split
  · rename_i hok
    have hwritten : ∀ o ∈ outs, ¬ o.failed := fun o ho hfail => by simp [hfailed o ho hfail] at hok
    exact ⟨hdest, hsent, hdry, fun o ho hfail => absurd hfail (hwritten o ho),
      fun h => hstate ▸ h, fun h => hstate ▸ h, fun h => .inr ⟨hstate ▸ h, hseq⟩⟩
  · exact .of_closed hdest hsent hdry closed_closing

theorem ackForwarded_dry (e : SocketEnv) (fwd : Bool) (s : Session) :
    Dry s (ackForwarded e fwd s).1 (ackForwarded e fwd s).2 := by
  refine ackForwarded_cases e fwd s ?_ ?_ ?_
  · intro _
    exact (Dry.refl _).congr rfl rfl rfl rfl
  · rintro t rfl _ _ _
    exact acked_dry e rfl rfl rfl rfl (by simp [Out.dry, writeTcp]) (by simp [Out.failed])
  · rintro t rfl _ _
    exact acked_dry e rfl rfl rfl rfl (by simp [Out.dry, writeTcp]) (by simp [Out.failed])

theorem handshake_dry (e : SocketEnv) (s : Session) (hst : s.state = .listen) :
    Dry s (handshake e s).1 (handshake e s).2 := by
  refine handshake_cases e s hst ?_ ?_
  · rintro t rfl
    exact ⟨rfl, rfl, by simp [Out.dry, writeTcp], by simp [Out.failed], by simp [hst],
      fun _ => .inl hst, by simp [State.reading]⟩
  · rintro t rfl
    exact .of_closed rfl rfl (by simp [Out.dry, writeTcp]) closed_closing

theorem handleEof_dry (e : SocketEnv) (s : Session)
    (hst : s.state = .established ∨ s.state = .closeWait) :
    Dry s (handleEof e s).1 (handleEof e s).2 := by
  refine handleEof_cases e s hst ?_ ?_ ?_
  · exact fun _ => .of_closed rfl rfl (by simp [Out.dry, writeTcp]) closed_closing
  · intro _ _
    refine ⟨rfl, rfl, by simp [Out.dry, writeTcp], by simp [Out.failed], ?_, ?_, ?_⟩ <;>
      rcases hst with h | h <;> simp [h, State.starting, State.reading]
  · exact fun _ _ => .of_closed rfl rfl (by simp [Out.dry, writeTcp]) closed_closing

theorem monitor_dry (e : MonitorEnv) (s : Session) :
    Dry s (monitorTcpSession e s).1 (monitorTcpSession e s).2.2 := by
  obtain ⟨t, ev, ht, ms, st, rfl, hst, houts⟩ := monitor_eq e s
  rw [ht]
  have hdry : ∀ o ∈ (monitorTcpSession e s).2.2, o.dry := by
    rcases houts with houts | ⟨-, houts⟩ <;> simp [houts, Out.dry, writeTcp]
  rcases hst with rfl | rfl
  · refine ⟨rfl, rfl, hdry, ?_, id, id, fun h => .inr ⟨h, rfl⟩⟩
    intro o ho hfail
    rcases houts with houts | ⟨⟨-, hclose⟩, houts⟩
    · simp [houts] at ho
    · rw [houts, List.mem_singleton] at ho
      subst ho
      exact .inl (hclose hfail)
  · exact .of_closed rfl rfl hdry closed_closing

theorem check_dry (e : CheckEnv) (s : Session) :
    Dry s (checkTcpSession e s).1 (checkTcpSession e s).2.2 := by
  have hclose : ∀ o ∈ (if 0 ≤ s.socket then [Out.close s.socket] else []), o.dry := by
    split <;> simp [Out.dry]
  refine checkTcpSession_cases e s (fun _ => .refl s) ?_ ?_ ?_
  · exact fun _ hst => .of_closed rfl rfl (by simp) (.inr hst)
  · rintro fd del t rfl _ _
    exact .of_closed rfl rfl hclose closed_close
  · rintro fd del t rfl _ _ _
    refine .of_closed rfl rfl (fun o ho => ?_) closed_close
    rcases List.mem_cons.mp ho with rfl | ho
    · exact .inl rfl
    · exact hclose o ho

/-! ## Steps -/

section

variable {s : Session} {tr : List Out}

theorem handleTcp_down (abi : Abi) (e : PacketEnv) (p : Packet)
    (hi : HeaderRead abi s (.packet e p)) (h : Down s tr) :
    Down (handleTcp abi e p s).1 (tr ++ (handleTcp abi e p s).2) := by
  have hqueue {t : Session} {outs : List Out} (ht : Down t outs) : Down (queueTcp p t) outs := by
    simpa [Down] using ht
  refine handleTcp_cases abi e p s ?_ ?_ ?_ ?_ ?_
  · intro _
    simpa using h
  · rintro t host rfl _ _ _
    simpa using hqueue (t := { s with hostname := host }) h
  · rintro t rfl _ _ _
    have hname : Dry s { s with hostname := packetHostname abi p s }
        [.connect s.state (connectRequest (packetHostname abi p s) s.dest) none] :=
      ⟨rfl, rfl, by simp [Out.dry], by simp [Out.failed], id, id, fun h => .inr ⟨h, rfl⟩⟩
    exact hqueue
      (h.dry (hname.trans (writeRst_dry e.tun.rst { s with hostname := packetHostname abi p s })))
  · rintro t n rfl hurg hport hsent hn
    have hopen : ¬ s.state.closed := by
      intro hc
      have := hi hurg hport hsent hc
      simp [hn, SendResult.count] at this
    exact hqueue
      (t := { s with hostname := packetHostname abi p s, connectSent := .sent, state := .listen })
      (h.requested hport hsent hopen _ _ _)
  · rintro t host rfl _ _
    exact h.dry ((handleSession_dry e p { s with hostname := host }).congr rfl rfl rfl rfl)

theorem readReply_down (e : SocketEnv) (hst : s.state = .listen)
    (hi : s.connectSent = .sent → ∀ b ∈ replyBytes s e, afterBlank b = some []) (h : Down s tr) :
    Down (readReply e s).1 (tr ++ (readReply e s).2) := by
  have hopen : ¬ s.state.closed := by simp [hst]
  refine readReply_cases e s hst ?_ ?_ ?_
  · intro err _
    have hrecv : Dry s s [.recv .listen 12 none] :=
      ⟨rfl, rfl, by simp [Out.dry], by simp [Out.failed], id, id, fun h => .inr ⟨h, rfl⟩⟩
    exact h.dry (hrecv.trans (writeRst_dry e.tun.rst s))
  · intro bytes _ hsent
    refine h.unwritten (writeRst_dry e.tun.rst s) (writeRst_offSocket _ s)
      (writeRst_closed _ s) hsent ?_
      (.inl (.inl hst)) _ _ _
    simp [hst, State.reading]
  · intro bytes hbytes hsent
    have hport := h.port (by simp [hsent])
    have hblank := hi hsent (bytes ++ (drainLoop e.drain).flatten) (by simp [replyBytes, hbytes])
    exact h.answered hopen hport hsent e _ bytes hblank

theorem readSocket_down (e : SocketEnv) (hearly : Early s) (h : Down s tr) :
    Down (readSocket e s).1 (tr ++ (readSocket e s).2) := by
  refine readSocket_cases e s (by simpa using h) ?_ ?_ ?_ ?_ ?_
  · intro asked hst
    have hd : Dry s { s with time := e.now } [.recv s.state asked none] :=
      ⟨rfl, rfl, by simp [Out.dry], by simp [Out.failed], id, id, fun h => .inr ⟨h, rfl⟩⟩
    exact h.dry hd
  · intro asked hst
    exact h.dry (.of_closed rfl rfl (by simp [Out.dry, writeTcp]) closed_closing)
  · intro asked hst
    have hd : Dry s { s with time := e.now } [.recv s.state asked (some [])] :=
      ⟨rfl, rfl, by simp [Out.dry], by simp [Out.failed], id, id, fun h => .inr ⟨h, rfl⟩⟩
    exact h.dry (hd.trans (handleEof_dry e { s with time := e.now } hst))
  · rintro asked bytes t hst hb _ rfl _
    exact h.written hst (hearly.connected hst) s.state asked hb _ rfl rfl rfl rfl rfl rfl
  · rintro asked bytes t hst hb rfl _
    refine h.unwritten (t := { s with
      time := e.now, received := s.received + bytes.length, state := .closing })
      (.of_closed rfl rfl (by simp [Out.dry]) closed_closing) (by simp [Out.offSocket])
      closed_closing ?_ (fun _ => hearly.connected hst) (.inr hst) _ _ _
    intro hsent
    have := hearly.connected hst (h.port (by simp [hsent]))
    simp [hsent] at this

theorem checkTcpSocket_down (abi : Abi) (e : SocketEnv) (hi : HeaderRead abi s (.socket e))
    (hearly : Early s) (h : Down s tr) :
    Down (checkTcpSocket abi e s).1 (tr ++ (checkTcpSocket abi e s).2) := by
  refine checkTcpSocket_cases abi e s ?_ ?_ ?_ ?_
  · exact fun _ => h.dry ((writeRst_dry e.tun.rst { s with time := e.now }).congr rfl rfl rfl rfl)
  · exact fun herr hst hinn => readReply_down e hst (hi herr hst hinn) h
  · exact fun _ hst _ => h.dry (handshake_dry e s hst)
  · intro _ _
    have hfirst := h.dry ((forwardData_dry abi e s).trans
      (ackForwarded_dry e (forwardData abi e s).2.1 (forwardData abi e s).1))
    have hearly' :=
      ackForwarded_early e (forwardData abi e s).2.1 _ (forwardData_early abi e s hearly)
    simpa [relay, List.append_assoc] using readSocket_down e hearly' hfirst

theorem step_down (abi : Abi) (i : Input) (hi : HeaderRead abi s i) (hearly : Early s)
    (h : Down s tr) :
    Down (step abi s i).1 (tr ++ (step abi s i).2) := by
  cases i with
  | packet e p => exact handleTcp_down abi e p hi h
  | socket e => exact checkTcpSocket_down abi e hi hearly h
  | monitor e =>
    show Down (if 0 ≤ s.socket then _ else _ : Session × List Out).1
      (tr ++ (if 0 ≤ s.socket then _ else _ : Session × List Out).2)
    split
    · exact h.dry (monitor_dry e s)
    · simpa using h
  | check e => exact h.dry (check_dry e s)

end

theorem newSession_down (e : SynEnv) (p : Packet) : Down (newSession e p) [] := by
  have hempty : payload [] = stream e.dest [] := by
    unfold stream
    split <;> rfl
  constructor
  · exact ⟨by simp [payload], fun _ => hempty, ⟨0, by simp [Contiguous]⟩, trivial⟩
  · exact fun h => absurd rfl h
  · exact fun _ _ => rfl
  · exact fun _ h => absurd h (by simp)
  · exact fun _ h => absurd h (by simp)
  · exact fun _ => rfl
  · exact fun _ _ => rfl
  · simp
  · exact fun _ => .inl rfl

/-- In a run whose replies end with their header, the client is written the remote
stream and nothing else. -/
theorem delivered_stream (abi : Abi) (e : SynEnv) (p : Packet) (is : List Input)
    (h : Along (step abi) (HeaderRead abi) (newSession e p) is) :
    Delivers e.dest (run (step abi) (newSession e p) is).1.state
      (run (step abi) (newSession e p) is).2 := by
  have hrun := run_invariant (step abi) (HeaderRead abi)
    (fun s tr => s.fixed = (newSession e p).fixed ∧ Early s ∧ Down s tr)
    (fun s tr i hs hi => ⟨(step_fixed abi s i).trans hs.1, step_early abi s i hs.2.1,
      step_down abi i hi hs.2.1 hs.2.2⟩) is (newSession e p) ⟨rfl, newSession_early e p,
      newSession_down e p⟩ h
  have hdest : (run (step abi) (newSession e p) is).1.dest = e.dest :=
    congrArg (fun f => f.2.2.2.2.1) hrun.1
  exact hdest ▸ hrun.2.2.toDelivers

/-- The first twelve bytes of a reply, and what can be read behind them at once. -/
def replyWith (rest : String) : SocketEnv :=
  { readable (ascii "HTTP/1.0 200") with drain := [ascii rest] }

/-- The session behind `connecting reply` and one more read. -/
def tunnelRun (reply : SocketEnv) (bytes : String) : Session × List Out :=
  run (step .arm64V8a) (newSession (plainSyn 443) (synPacket []))
    (connecting reply ++ [.socket (readable (ascii bytes))])

/-- The whole header is there at the first read. -/
theorem delivered_stream_tunnel :
    Delivers 443 (tunnelRun (replyWith " OK\r\n\r\n") "AB").1.state
      (tunnelRun (replyWith " OK\r\n\r\n") "AB").2 := by
  refine delivered_stream .arm64V8a (plainSyn 443) (synPacket []) _ ?_
  decide +kernel

/-- The rest of a header that arrives late goes to the client; data that arrives
with the header does not. -/
theorem header_misread :
    ¬ Delivers 443 (tunnelRun (readable (ascii "HTTP/1.0 200")) " OK\r\n\r\n").1.state
        (tunnelRun (readable (ascii "HTTP/1.0 200")) " OK\r\n\r\n").2 ∧
      ¬ Delivers 443 (tunnelRun (replyWith " OK\r\n\r\nAB") "CD").1.state
        (tunnelRun (replyWith " OK\r\n\r\nAB") "CD").2 := by
  refine ⟨fun h => ?_, fun h => ?_⟩
  · exact absurd h.kept (by decide +kernel)
  · exact absurd h.kept (by decide +kernel)

end PdaNetClient.Tcp
