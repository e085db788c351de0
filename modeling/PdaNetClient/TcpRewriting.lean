import PdaNetClient.TcpUpstream

/-!
# Requests rewritten on the way out

For port 80 a send is offered the text of `patch_http_url`, and the segment counts
the bytes sent as if they were its own. A resumed send rewrites the remainder again.
What the queue still stands for is the rewritten remainder of each segment: a pass
loses or repeats nothing exactly when the remainder, rewritten again, is
the rest of the text.
-/
namespace PdaNetClient.Tcp

open Http Runs Numbered

set_option autoImplicit false

/-- The text offered for `data` when `after` lies behind its buffer. -/
def patched (after : Memory) (data : Bytes) : Bytes := (patchHead 80 after data).apply data

/-- What a segment still has to send; for an unsent segment the whole of it, rewritten. -/
def rewritten (mem : U32 → Memory) (g : Segment) : Bytes := patched (mem g.seq) g.rest

def outstanding (mem : U32 → Memory) (q : List Segment) : Bytes := q.flatMap (rewritten mem)

@[simp] theorem outstanding_nil (mem : U32 → Memory) : outstanding mem [] = [] := rfl
@[simp] theorem outstanding_cons (mem : U32 → Memory) (g : Segment) (q : List Segment) :
    outstanding mem (g :: q) = rewritten mem g ++ outstanding mem q := rfl

/-- After a send of `k` bytes the remainder is rewritten to the rest of the text. -/
def Resumes (after : Memory) (rest : Bytes) (k : Nat) : Prop :=
  patched after (rest.drop k) = (patched after rest).drop k

instance (after : Memory) (rest : Bytes) (k : Nat) : Decidable (Resumes after rest k) :=
  inferInstanceAs (Decidable (_ = _))

/-- Nothing is inserted into nothing: the value searched for has six bytes. -/
theorem patched_nil (after : Memory) : patched after [] = [] := by
  simp [patched, patchHead, patchHttpUrl, findData, findLoop]

theorem patched_drop_len (after : Memory) (rest : Bytes) (k : Nat) (h : rest.length ≤ k) :
    patched after (rest.drop k) = [] := by
  rw [List.drop_eq_nil_of_le h, patched_nil]

section

variable {mem : U32 → Memory} {s : Session} {g : Segment} {q : List Segment}

/-- The text of the head after `n` of its own bytes were marked. -/
theorem outstanding_passed (n : Nat) (hn : n ≤ g.len - g.sent) :
    outstanding mem (passed s g q n hn).forward =
      patched (mem g.seq) (g.rest.drop n) ++ outstanding mem q := by
  have hsent := g.sent_le_len
  by_cases hfull : g.len = g.sent + n
  · simp only [passed, if_pos hfull]
    rw [patched_drop_len _ _ _ (by rw [Segment.length_rest]; omega), List.nil_append]
  · simp only [passed, if_neg hfull, outstanding_cons]
    congr 1
    simp only [rewritten, Segment.rest, Segment.advance, List.drop_drop]

/-- What one pass sends and leaves, when its send takes `k` bytes. -/
theorem pass_splits (n k : Nat) (hn : n ≤ g.len - g.sent) (hq : s.forward = g :: q)
    (hmark : n = min k g.rest.length) :
    (rewritten mem g).take k ++ outstanding mem (passed s g q n hn).forward =
      outstanding mem s.forward ↔
      Resumes (mem g.seq) g.rest k := by
  have hdrop : g.rest.drop n = g.rest.drop k := by
    rcases Nat.le_total k g.rest.length with hle | hle
    · rw [hmark, Nat.min_eq_left hle]
    · rw [hmark, Nat.min_eq_right hle, List.drop_length, List.drop_eq_nil_of_le hle]
  rw [outstanding_passed, hq, outstanding_cons, ← List.append_assoc,
    List.append_cancel_right_eq, hdrop]
  nth_rewrite 2 [← List.take_append_drop k (rewritten mem g)]
  rw [List.append_cancel_left_eq]
  rfl

theorem length_patched (after : Memory) (data : Bytes) :
    data.length ≤ (patched after data).length := by
  simp [patched]

/-- A count beyond the text is the text. -/
theorem resumes_min (after : Memory) (rest : Bytes) (m : Nat) :
    Resumes after rest (min m (patched after rest).length) ↔ Resumes after rest m := by
  rcases Nat.le_total m (patched after rest).length with hle | hle
  · rw [Nat.min_eq_left hle]
  · have hlen := length_patched after rest
    rw [Nat.min_eq_right hle]
    unfold Resumes
    rw [patched_drop_len _ _ _ hlen, patched_drop_len _ _ _ (hlen.trans hle), List.drop_length,
      List.drop_eq_nil_of_le hle]

/-- The pass that a successful send makes. -/
theorem headResult_ok {m : Nat} {after : Memory} (h80 : s.dest = 80) (hsock : 0 ≤ s.socket) :
    headResult (.ok m) after s g = .ok (min m (patched after g.rest).length) := by
  have hneg : ¬ s.socket < 0 := by omega
  simp only [headResult, sockSend, if_neg hneg, h80]
  rfl

theorem pass_outstanding {res : SendResult} {m : Nat} (st : State) (h80 : s.dest = 80)
    (hsock : 0 ≤ s.socket) (hres : res = .ok m) (n : Nat) (hn : n ≤ g.len - g.sent)
    (hq : s.forward = g :: q)
    (hmark : n = marked (headResult res (mem g.seq) s g) (g.len - g.sent)) :
    (Out.forward st g.rest (patchHead s.dest (mem g.seq) g.rest)
        (headResult res (mem g.seq) s g).count).accepted ++
      outstanding mem (passed s g q n hn).forward = outstanding mem s.forward ↔
    Resumes (mem g.seq) g.rest m := by
  subst hres
  rw [headResult_ok h80 hsock] at hmark ⊢
  rw [← resumes_min, ← pass_splits n _ hn hq (by rw [hmark, Segment.length_rest]; rfl)]
  simp only [SendResult.count, Out.accepted, h80]
  rfl

end

/-! ## Cuts -/

section

variable {after : Memory} {rest text : Bytes} {pos k : Nat}

/-- A send that takes nothing, or the whole text, cuts nothing off. -/
theorem resumes_zero (after : Memory) (rest : Bytes) : Resumes after rest 0 := rfl

theorem resumes_whole (h : (patched after rest).length ≤ k) : Resumes after rest k := by
  unfold Resumes
  rw [patched_drop_len _ _ _ ((length_patched after rest).trans h), List.drop_eq_nil_of_le h]

/-- A text that is the segment itself goes on where the remainder is not rewritten either. -/
theorem resumes_plain (h : patched after rest = rest) :
    Resumes after rest k ↔ patched after (rest.drop k) = rest.drop k := by
  rw [Resumes, h]

theorem patched_insert (h : patchHead 80 after rest = .insert pos text) :
    patched after rest = rest.take pos ++ (text ++ rest.drop pos) ∧ pos ≤ rest.length ∧
    7 ≤ text.length := by
  refine ⟨?_, patchHttpUrl_insert h⟩
  rw [patched, h, Patch.apply, List.append_assoc]

/-- Before the inserted text, the remainder has to get the same text at the same place. -/
theorem resumes_before (h : patchHead 80 after rest = .insert pos text) (hk : k ≤ pos) :
    Resumes after rest k ↔
      patched after (rest.drop k) = (rest.drop k).take (pos - k) ++ (text ++ rest.drop pos) := by
  obtain ⟨htext, hpos, -⟩ := patched_insert h
  have hfront : (rest.take pos).length = pos := List.length_take_of_le hpos
  rw [Resumes, htext, List.drop_append_of_le_length (hk.trans_eq hfront.symm), List.drop_take]

/-- Inside of it, the remainder has to be rewritten to the rest of the inserted text and what
follows. -/
theorem resumes_inside (h : patchHead 80 after rest = .insert pos text) (hk : pos ≤ k)
    (htext : k ≤ pos + text.length) :
    Resumes after rest k ↔ patched after (rest.drop k) = text.drop (k - pos) ++ rest.drop pos := by
  obtain ⟨hwhole, hpos, -⟩ := patched_insert h
  have hfront : (rest.take pos).length = pos := List.length_take_of_le hpos
  have hinside : k - pos ≤ text.length := by omega
  rw [Resumes, hwhole, List.drop_append, hfront, List.drop_eq_nil_of_le (hfront.le.trans hk),
    List.nil_append, List.drop_append_of_le_length hinside]

/-- Where the remainder is not rewritten again, as behind the method word, the only good cut of a
rewritten segment is its end. -/
theorem resumes_once_iff (h : patchHead 80 after rest = .insert pos text)
    (hplain : patched after (rest.drop k) = rest.drop k) :
    Resumes after rest k ↔ (patched after rest).length ≤ k := by
  refine ⟨fun hresumes => ?_, resumes_whole⟩
  obtain ⟨hwhole, hpos, hlong⟩ := patched_insert h
  have hlength : (patched after rest).length = rest.length + text.length := by
    simp only [hwhole, List.length_append, List.length_take, List.length_drop]
    omega
  have hsame := congrArg List.length (hplain.symm.trans hresumes)
  rw [List.length_drop, List.length_drop, hlength] at hsame
  omega

end

/-! ## Runs -/

/-- Every send of the event takes a count, and the bytes behind each queued buffer
are what they were. -/
def Served (mem : U32 → Memory) (s : Session) : Input → Prop
  | .socket e => (∀ i, ∃ m, e.sends i = .ok m) ∧
      ∀ i (_ : i < s.forward.length), e.after i = mem s.forward[i].seq
  | _ => False

/-- The remainder after a send goes on with the text, when it is rewritten again. -/
def Continues (after : Memory) (rest : Bytes) : SendResult → Prop
  | .ok m => Resumes after rest m
  | .fail _ => True

instance (after : Memory) (rest : Bytes) : (r : SendResult) → Decidable (Continues after rest r)
  | .ok _ | .fail _ => by unfold Continues; infer_instance

/-- No send of the event cuts the text at a wrong place. -/
def CutsContinue (mem : U32 → Memory) (s : Session) : Input → Prop
  | .socket e => e.ev.err = false → e.ev.out = true → ∀ i (_ : i < s.forward.length),
      Continues (mem s.forward[i].seq) s.forward[i].rest (e.sends i)
  | _ => True

instance (mem : U32 → Memory) (s : Session) : (i : Input) → Decidable (CutsContinue mem s i)
  | .packet _ _ | .socket _ | .monitor _ | .check _ => by unfold CutsContinue; infer_instance

/-- What was accepted, and what the queue stands for, is `text`. -/
structure RewritingAt (mem : U32 → Memory) (text : Bytes) (dest : Nat) (st : State)
    (q : List Segment) (a : Bytes) : Prop where
  port : dest = 80
  state : st ≠ .listen
  whole : a ++ outstanding mem q = text

abbrev Rewriting (mem : U32 → Memory) (text : Bytes) (s : Session) (a : Bytes) : Prop :=
  RewritingAt mem text s.dest s.state s.forward a

section

variable {mem : U32 → Memory} {text a : Bytes} {s : Session}

theorem Rewriting.closed (h : Rewriting mem text s a) (st : State) (hst : st.closed) :
    Rewriting mem text { s with state := st } a :=
  { h with state := by rcases hst with rfl | rfl <;> simp }

theorem forwardData_rewriting (abi : Abi) (e : SocketEnv) (tr : List Out)
    (hserved : Served mem s (.socket e)) (herr : e.ev.err = false)
    (hcuts : CutsContinue mem s (.socket e)) (h : Rewriting mem text s (accepted tr)) :
    Rewriting mem text (forwardData abi e s).1 (accepted (tr ++ (forwardData abi e s).2.2)) := by
  by_cases hsock : s.socket < 0
  · rw [forwardData_no_socket abi e s hsock]
    simpa using h
  · by_cases hout : e.ev.out = true
    · have hrule := forwardData_rule
        (fun _ t tr => 0 ≤ t.socket ∧ Rewriting mem text t (accepted tr)) abi e s tr
        (fun _ t tr ht => by simpa using ht)
        (fun i _ t tr g q n hn ht hdrop hq _ hmark => by
          obtain ⟨hopen, hre⟩ := ht
          obtain ⟨hi, hg⟩ := getElem_of_drop hdrop
          obtain ⟨m, hm⟩ := hserved.1 i
          have hmem := hserved.2 i hi
          have hcut := hcuts herr hout i hi
          rw [hg] at hmem hcut
          rw [hm] at hcut
          rw [hmem] at hmark ⊢
          have hpass := (pass_outstanding t.state hre.port hopen hm n hn hq hmark).mpr hcut
          refine ⟨hopen, { hre with whole := ?_ }⟩
          rw [accepted_append, accepted_cons, accepted_nil, List.append_nil,
            List.append_assoc, hpass]
          exact hre.whole)
        ⟨by omega, h⟩
      exact hrule.2
    · simp only [forwardData, hout, Bool.false_eq_true, if_false, List.append_nil]
      exact h

theorem acked_rewriting (e : SocketEnv) (t : Session) (h : Rewriting mem text t a) :
    Rewriting mem text (acked e t) a := by
  unfold acked
  split
  · exact h
  · exact h.closed _ closed_closing

theorem ackForwarded_rewriting (e : SocketEnv) (fwd : Bool) (h : Rewriting mem text s a) :
    Rewriting mem text (ackForwarded e fwd s).1 a ∧ accepted (ackForwarded e fwd s).2 = [] := by
  refine ackForwarded_cases e fwd s (fun _ => ⟨h, rfl⟩) ?_ ?_
  · rintro t rfl _ _ _
    exact ⟨acked_rewriting e _ h, rfl⟩
  · rintro t rfl _ _
    exact ⟨acked_rewriting e _ h, rfl⟩

theorem readSocket_rewriting (e : SocketEnv) (h : Rewriting mem text s a) :
    Rewriting mem text (readSocket e s).1 a ∧ accepted (readSocket e s).2 = [] := by
  refine readSocket_cases e s ⟨h, rfl⟩ ?_ ?_ ?_ ?_ ?_
  · exact fun _ _ => ⟨h, rfl⟩
  · exact fun _ _ => ⟨h.closed _ closed_closing, rfl⟩
  · intro asked hst
    refine handleEof_cases e { s with time := e.now } hst ?_ ?_ ?_
    · exact fun _ => ⟨h.closed _ closed_closing, rfl⟩
    · exact fun _ _ => ⟨{ h with state := by split <;> simp }, rfl⟩
    · exact fun _ _ => ⟨h.closed _ closed_closing, rfl⟩
  · rintro asked bytes t _ _ _ rfl _
    exact ⟨h, rfl⟩
  · rintro asked bytes t _ _ rfl _
    exact ⟨h.closed _ closed_closing, rfl⟩

theorem step_rewriting (abi : Abi) (i : Input) (tr : List Out) (hserved : Served mem s i)
    (hcuts : CutsContinue mem s i) (h : Rewriting mem text s (accepted tr)) :
    Rewriting mem text (step abi s i).1 (accepted (tr ++ (step abi s i).2)) := by
  cases i with
  | socket e =>
    show Rewriting mem text (checkTcpSocket abi e s).1 (accepted (tr ++ (checkTcpSocket abi e s).2))
    refine checkTcpSocket_cases abi e s ?_ ?_ ?_ ?_
    · intro _
      refine writeRst_cases e.tun.rst { s with time := e.now } ?_ ?_
      · exact fun hl => absurd hl h.state
      · intro st _ hst _
        simpa using h.closed st hst
    · exact fun _ hst _ => absurd hst h.state
    · exact fun _ hst _ => absurd hst h.state
    · intro herr _
      have hf := forwardData_rewriting abi e tr hserved herr hcuts h
      obtain ⟨ha, hnil⟩ := ackForwarded_rewriting e (forwardData abi e s).2.1 hf
      obtain ⟨hr, hnil'⟩ := readSocket_rewriting e ha
      simpa [relay, hnil, hnil'] using hr
  | packet => exact absurd hserved id
  | monitor => exact absurd hserved id
  | check => exact absurd hserved id

end

/-- What a run of good sends gives the socket is the front of the rewritten queue. -/
theorem accepted_continues (abi : Abi) (mem : U32 → Memory) (s : Session) (is : List Input)
    (h80 : s.dest = 80) (hst : s.state ≠ .listen) (hserved : Along (step abi) (Served mem) s is)
    (hcuts : Along (step abi) (CutsContinue mem) s is) :
    accepted (run (step abi) s is).2 <+: outstanding mem s.forward := by
  have hrun := run_invariant (step abi) (fun t i => Served mem t i ∧ CutsContinue mem t i)
    (fun t tr => Rewriting mem (outstanding mem s.forward) t (accepted tr))
    (fun t tr i ht hi => step_rewriting abi i tr hi.1 hi.2 ht) is s ⟨h80, hst, rfl⟩
    ((along_and _ _ _ _ _).mpr ⟨hserved, hcuts⟩)
  exact ⟨_, hrun.whole⟩

/-- Each send of the event takes nothing, or all of the text that it is offered. -/
def TakesWhole (mem : U32 → Memory) (s : Session) : Input → Prop
  | .socket e => ∀ i (_ : i < s.forward.length), ∀ m, e.sends i = .ok m →
      m = 0 ∨ (patched (mem s.forward[i].seq) s.forward[i].rest).length ≤ m
  | _ => True

theorem TakesWhole.continues {mem : U32 → Memory} {s : Session} {i : Input}
    (h : TakesWhole mem s i) :
    CutsContinue mem s i := by
  cases i with
  | socket e =>
    intro _ _ i hi
    cases hsend : e.sends i with
    | fail errno => exact trivial
    | ok m =>
      rcases h i hi m hsend with rfl | hwhole
      · exact resumes_zero _ _
      · exact resumes_whole hwhole
  | packet => exact trivial
  | monitor => exact trivial
  | check => exact trivial

/-- Segments that are sent in one piece are sent as they were rewritten. -/
theorem accepted_whole (abi : Abi) (mem : U32 → Memory) (s : Session) (is : List Input)
    (h80 : s.dest = 80) (hst : s.state ≠ .listen) (hserved : Along (step abi) (Served mem) s is)
    (hwhole : Along (step abi) (TakesWhole mem) s is) :
    accepted (run (step abi) s is).2 <+: outstanding mem s.forward :=
  accepted_continues abi mem s is h80 hst hserved
    (along_of_invariant (step abi) (TakesWhole mem) (CutsContinue mem) (fun _ => True)
      (fun _ _ _ ht => ⟨ht.continues, trivial⟩) is s trivial hwhole)

/-- What a pass accepted, and what the queue stands for after it, is what the queue
stood for before. -/
def PassKeeps (abi : Abi) (rstOk : Bool) (mem : U32 → Memory) (s : Session) (g : Segment)
    (q : List Segment) (fwd : Bool) (m : Nat) : Prop :=
  let p := sendHead abi rstOk (.ok m) (mem g.seq) s g q fwd
  accepted p.outs ++ outstanding mem p.s.forward = outstanding mem s.forward

theorem passKeeps_iff (abi : Abi) (rstOk : Bool) (mem : U32 → Memory) (s : Session) (g : Segment)
    (q : List Segment) (fwd : Bool) (m : Nat) (h80 : s.dest = 80) (hsock : 0 ≤ s.socket)
    (hq : s.forward = g :: q) (hrun : patchHead 80 (mem g.seq) g.rest ≠ .overrun) :
    PassKeeps abi rstOk mem s g q fwd m ↔ Resumes (mem g.seq) g.rest m := by
  unfold PassKeeps
  refine sendHead_cases abi rstOk (.ok m) (mem g.seq) s g q fwd ?_ ?_
  · intro hover
    rw [h80] at hover
    exact absurd hover hrun
  · intro n hn hmark
    have hpass := pass_outstanding s.state h80 hsock rfl n hn hq hmark
    simpa only [accepted_cons, accepted_nil, List.append_nil] using hpass

/-- A pass loses and repeats nothing exactly when its send resumes, and a run of
socket events whose sends all do gives the socket a prefix of the rewritten queue. -/
theorem rewriting_continues (abi : Abi) :
    (∀ (rstOk : Bool) (mem : U32 → Memory) (s : Session) (g : Segment) (q : List Segment)
      (fwd : Bool) (m : Nat), s.dest = 80 → 0 ≤ s.socket → s.forward = g :: q →
      patchHead 80 (mem g.seq) g.rest ≠ .overrun →
      (PassKeeps abi rstOk mem s g q fwd m ↔ Resumes (mem g.seq) g.rest m)) ∧
    ∀ (mem : U32 → Memory) (s : Session) (is : List Input), s.dest = 80 → s.state ≠ .listen →
      Along (step abi) (Served mem) s is → Along (step abi) (CutsContinue mem) s is →
      accepted (run (step abi) s is).2 <+: outstanding mem s.forward :=
  ⟨passKeeps_iff abi, accepted_continues abi⟩

/-- A connected session to port 80 with one request queued. -/
def request : Bytes := ascii "GET / HTTP/1.1\r\nHost: a\r\n\r\n"

def queuedRequest : Session :=
  (run (step .arm64V8a) (newSession (plainSyn 80) (synPacket []))
    [.socket writable, .packet plainEnv (plainPacket 1001 5001 request),
      .socket (readable (ascii "HTTP/1.0 200"))]).1

def noBytes : U32 → Memory := fun _ _ => 0

/-- The request is sent in one piece. -/
theorem rewriting_continues_whole :
    PassKeeps .arm64V8a true noBytes queuedRequest (newSegment (plainPacket 1001 5001 request))
    [] false 65536 ∧
      accepted (run (step .arm64V8a) queuedRequest [.socket writable]).2 <+:
        outstanding noBytes queuedRequest.forward := by
  constructor
  · exact ((rewriting_continues .arm64V8a).1 true noBytes _ _ _ false _ (by decide +kernel)
      (by decide +kernel)
      (by decide +kernel) (by decide +kernel)).mpr (by decide +kernel)
  · refine (rewriting_continues .arm64V8a).2 noBytes _ _ (by decide +kernel) (by decide +kernel) ?_
      (by decide +kernel)
    exact ⟨⟨fun _ => ⟨65536, rfl⟩, fun _ _ => rfl⟩, trivial⟩

/-- The first send takes one byte. The rest has no method word left and goes out as it is. -/
theorem rewriting_lost :
    Along (step .arm64V8a) (Served noBytes) queuedRequest
        [.socket { writable with sends := fun _ => .ok 1 }, .socket writable] ∧
      ¬ accepted (run (step .arm64V8a) queuedRequest
        [.socket { writable with sends := fun _ => .ok 1 }, .socket writable]).2 <+:
          outstanding noBytes queuedRequest.forward := by
  refine ⟨?_, by decide +kernel⟩
  exact ⟨⟨fun _ => ⟨1, rfl⟩, fun _ _ => rfl⟩, ⟨fun _ => ⟨65536, rfl⟩, fun _ _ => rfl⟩, trivial⟩

end PdaNetClient.Tcp
