import PdaNetClient.Spans
import PdaNetClient.TcpUpstream
import PdaNetClient.TcpAcknowledged

/-!
# Reassembly of the client's stream

The forward queue as spans of the client's stream. `queue_tcp` looks at the starts of
segments only, and drops what starts before `remote_seq` whatever it brings: the
queue covers what was received, from its head on, as long as no segment crosses
`remote_seq` or another segment.
-/
namespace PdaNetClient.Tcp

open Http Runs Numbered Spans

set_option autoImplicit false

/-- The position of a sequence number behind `first`. -/
def offset (first x : U32) : Nat := (x - first).toNat

/-- The part of a queued segment that is still to be sent. -/
def Segment.span (first : U32) (g : Segment) : Span := ⟨offset first g.seq + g.sent, g.len - g.sent⟩

def spans (first : U32) (q : List Segment) : List Span := q.map (Segment.span first)

/-- Data on a SYN is numbered behind it. -/
def Packet.dataSeq (p : Packet) : U32 := if p.syn then p.seq + 1 else p.seq

/-- `x` numbers a byte of the packet's data; urgent packets are dropped. -/
def Packet.Brings (p : Packet) (x : U32) : Prop := p.urg = false ∧ (x - p.dataSeq).toNat < p.datalen

def Input.Brings (x : U32) : Input → Prop
  | .packet _ p => p.Brings x
  | _ => False

/-- `x` numbers a byte of the SYN or of a later packet. -/
def Received (p : Packet) (is : List Input) (x : U32) : Prop := p.Brings x ∨ ∃ i ∈ is, i.Brings x

instance (p : Packet) (x : U32) : Decidable (p.Brings x) := inferInstanceAs (Decidable (_ ∧ _))

instance (x : U32) : (i : Input) → Decidable (i.Brings x)
  | .packet _ _ | .socket _ | .monitor _ | .check _ => by unfold Input.Brings; infer_instance

instance (p : Packet) (is : List Input) (x : U32) : Decidable (Received p is x) :=
  inferInstanceAs (Decidable (_ ∨ _))

/-- Every send takes all it is offered. -/
def TakesAll (e : SocketEnv) : Prop := ∀ i, ∃ n, e.sends i = .ok n ∧ 2 ^ 16 ≤ n

def unsent (q : List Segment) : Nat := (q.map fun g => g.len - g.sent).sum

def State.relays (st : State) : Prop := st = .synRecv ∨ st = .established ∨ st = .closeWait

instance (st : State) : Decidable st.relays := inferInstanceAs (Decidable (_ ∨ _))

/-- Of the bytes from `remote_seq` on that were received without a gap, the forward
loop sends every one, when the sends take everything and the buffer has room for the
whole queue. -/
def NoStall (abi : Abi) (received : U32 → Prop) (s : Session) : Prop :=
  s.state.relays → ∀ n, (∀ j < n, received (s.remoteSeq + BitVec.ofNat 32 j)) →
    ∀ (e : SocketEnv) (b : U32), TakesAll e → unsent s.forward < b.toNat →
      n ≤ total Out.clientBytes (forwardLoop abi e s.forward 0 b s false).2.2

/-- The position in the client's stream of the next byte to forward. -/
def expected (s : Session) : Nat :=
  if s.state = .listen then 0 else offset (s.remoteStart + 1) s.remoteSeq

/-- A packet that `queue_tcp` drops brings nothing new. One that it queues is no SYN, lies
behind what was forwarded, compares with the queued segments as their positions do, and
overlaps none of another start. -/
def FitsAt (first : U32) (f : Nat) (remoteSeq : U32) (q : List Segment) (p : Packet) : Prop :=
  if compareU32 p.seq remoteSeq < 0 then
    ∀ k < p.datalen, offset first p.dataSeq + k < f ∨
      Covers (spans first q) (offset first p.dataSeq + k)
  else
    p.syn = false ∧ f ≤ offset first p.seq ∧
      ∀ g ∈ q, (compareU32 g.seq p.seq < 0 ↔ offset first g.seq < offset first p.seq) ∧
        (g.seq = p.seq ∨ offset first g.seq + g.len ≤ offset first p.seq ∨
          offset first p.seq + p.datalen ≤ offset first g.seq)

instance (first : U32) (f : Nat) (remoteSeq : U32) (q : List Segment) (p : Packet) :
    Decidable (FitsAt first f remoteSeq q p) := by
  unfold FitsAt
  infer_instance

/-- A packet whose data an open session takes fits its queue. -/
def FitsQueue (s : Session) : Input → Prop
  | .packet _ p => p.urg = false → p.datalen ≠ 0 →
      s.state = .listen ∨ s.state = .synRecv ∨ s.state = .established →
      FitsAt (s.remoteStart + 1) (expected s) s.remoteSeq s.forward p
  | _ => True

instance (s : Session) : (i : Input) → Decidable (FitsQueue s i)
  | .packet _ _ | .socket _ | .monitor _ | .check _ => by unfold FitsQueue; infer_instance

/-! ## The queue -/

/-- The queue covers what was received of a stream of `len` bytes and not yet
forwarded; `f` bytes were. -/
structure Assembled (first : U32) (len : Nat) (received : U32 → Prop) (f : Nat)
    (q : List Segment) : Prop where
  front : f ≤ len
  chain : Chain f (spans first q)
  unfinished : ∀ g ∈ q, g.sent < g.len
  within : ∀ g ∈ q, offset first g.seq + g.len ≤ len
  head : ∀ g ∈ q, g.sent = 0 ∨ offset first g.seq + g.sent = f
  covered : ∀ x, received x → offset first x < f ∨ Covers (spans first q) (offset first x)

section

variable {S : Bytes} {first : U32} {len f : Nat} {received : U32 → Prop} {q : List Segment}
    {p : Packet}

theorem offset_inj {x y : U32} : offset first x = offset first y ↔ x = y := by
  constructor
  · intro h
    have hsub : x - first = y - first := BitVec.eq_of_toNat_eq h
    calc x = x - first + first := (BitVec.sub_add_cancel x first).symm
      _ = y - first + first := by rw [hsub]
      _ = y := BitVec.sub_add_cancel y first
  · exact fun h => h ▸ rfl

theorem offset_add {k : Nat} (h : k < 2 ^ 32) : offset first (first + BitVec.ofNat 32 k) = k := by
  have hsub : first + BitVec.ofNat 32 k - first = BitVec.ofNat 32 k := by
    rw [BitVec.add_comm, BitVec.add_sub_cancel]
  rw [offset, hsub, BitVec.toNat_ofNat, Nat.mod_eq_of_lt h]

/-- A sequence number is the first one plus its position. -/
theorem add_offset (first x : U32) : first + BitVec.ofNat 32 (offset first x) = x := by
  rw [offset, BitVec.ofNat_toNat, BitVec.setWidth_eq, BitVec.add_comm, BitVec.sub_add_cancel]

theorem seq_add_eq (first x : U32) (k : Nat) :
    x + BitVec.ofNat 32 k = first + BitVec.ofNat 32 (offset first x + k) := by
  rw [BitVec.ofNat_add, ← BitVec.add_assoc, add_offset]

theorem Packet.Brings.offset {x : U32} (h : p.Brings x) (first : U32)
    (hend : offset first p.dataSeq + p.datalen < 2 ^ 32) :
    ∃ k < p.datalen, Tcp.offset first x = Tcp.offset first p.dataSeq + k := by
  refine ⟨_, h.2, ?_⟩
  have hx : x = first + BitVec.ofNat 32 (Tcp.offset first p.dataSeq + (x - p.dataSeq).toNat) := by
    rw [← seq_add_eq, BitVec.ofNat_toNat, BitVec.setWidth_eq, BitVec.add_comm,
      BitVec.sub_add_cancel]
  have hlt := h.2
  conv_lhs => rw [hx]
  exact offset_add (by omega)

/-- The data of a packet lies inside the stream. -/
theorem Agrees.within {start : U32} (h : Agrees S start p) (hlen : p.datalen ≠ 0)
    (hS : S.length < 2 ^ 32) :
    offset (start + 1) p.dataSeq + p.datalen ≤ S.length := by
  have hag := h hlen
  unfold Packet.dataSeq
  split at hag
  · rename_i hsyn
    rw [if_pos hsyn, hag.1]
    have := hag.2.length_le
    simpa [offset, Packet.datalen] using this
  · rename_i hsyn
    obtain ⟨i, hseq, hi, -⟩ := hag
    rw [if_neg hsyn, hseq, offset_add (by omega)]
    exact hi

@[simp] theorem spans_cons (g : Segment) : spans first (g :: q) = g.span first :: spans first q :=
  rfl

/-- `queue_tcp` inserts a span. -/
theorem spans_insertSegment (hfront : f ≤ offset first p.seq)
    (hunfinished : ∀ g ∈ q, g.sent < g.len)
    (hhead : ∀ g ∈ q, g.sent = 0 ∨ offset first g.seq + g.sent = f)
    (hfit : ∀ g ∈ q, (compareU32 g.seq p.seq < 0 ↔
      offset first g.seq < offset first p.seq) ∧ (g.seq = p.seq ∨ offset first g.seq + g.len ≤
        offset first p.seq ∨ offset first p.seq + p.datalen ≤ offset first g.seq)) :
    spans first (insertSegment p q) = Spans.insert ((newSegment p).span first) (spans first q) := by
  induction q with
  | nil => rfl
  | cons g q ih =>
    have hsent := hunfinished g (by simp)
    have hpart := hhead g (by simp)
    obtain ⟨hbefore, hapart⟩ := hfit g (by simp)
    have hrest := ih (fun g hg => hunfinished g (by simp [hg])) (fun g hg => hhead g (by simp [hg]))
      fun g hg => hfit g (by simp [hg])
    have hstart : ((newSegment p).span first).start = offset first p.seq := rfl
    have hgstart : (g.span first).start = offset first g.seq + g.sent := rfl
    unfold insertSegment
    rw [spans_cons, Spans.insert, hstart, hgstart]
    by_cases hlt : compareU32 g.seq p.seq < 0
    · have hne : g.seq ≠ p.seq := fun h => by simp [h] at hlt
      have hpos : offset first g.seq + g.sent < offset first p.seq := by
        have hpos := hbefore.mp hlt
        have hapart := hapart.resolve_left hne
        omega
      rw [if_pos hlt, if_pos hpos, spans_cons, hrest]
    · have hle : offset first p.seq ≤ offset first g.seq :=
        Nat.le_of_not_lt fun h => hlt (hbefore.mpr h)
      have hpos : ¬ offset first g.seq + g.sent < offset first p.seq := by omega
      rw [if_neg hlt, if_neg hpos]
      by_cases hgt : compareU32 g.seq p.seq > 0
      · have hne : offset first g.seq ≠ offset first p.seq :=
          fun h => (compareU32_pos.mp hgt).1 (offset_inj.mp h)
        have hpos' : offset first p.seq < offset first g.seq + g.sent := by omega
        rw [if_pos hgt, if_pos hpos']
        rfl
      · -- one number: an unsent segment, and the longer of the two stays
        have hseq : g.seq = p.seq := eq_of_compareU32 hlt hgt
        rw [hseq] at hpart
        have hzero : g.sent = 0 := by omega
        have hpos' : ¬ offset first p.seq < offset first g.seq + g.sent := by rw [hseq]; omega
        have hlen : (g.span first).len = g.len ∧ ((newSegment p).span first).len =
            p.data.bytes.length := by
          simp [Segment.span, hzero, Packet.datalen]
        rw [if_neg hgt, if_neg hpos', hlen.1, hlen.2]
        split
        · simp [Segment.span, hseq, hzero, Packet.datalen]
        · rfl

/-- A segment that fits is queued with every byte it brings. -/
theorem Assembled.insert (h : Assembled first len received f q) (hlen : len < 2 ^ 32)
    (hdata : p.datalen ≠ 0) (hsyn : p.syn = false) (hend : offset first p.dataSeq + p.datalen ≤ len)
    (hfront : f ≤ offset first p.seq)
    (hfit : ∀ g ∈ q, (compareU32 g.seq p.seq < 0 ↔ offset first g.seq < offset first p.seq) ∧
      (g.seq = p.seq ∨ offset first g.seq + g.len ≤ offset first p.seq ∨
        offset first p.seq + p.datalen ≤ offset first g.seq)) :
    Assembled first len (fun x => received x ∨ p.Brings x) f (insertSegment p q) := by
  have hseq : p.dataSeq = p.seq := by simp [Packet.dataSeq, hsyn]
  have hspans := spans_insertSegment hfront h.unfinished h.head hfit
  rw [hseq] at hend
  refine ⟨h.front, ?_, ?_, ?_, ?_, ?_⟩
  · rw [hspans]
    refine h.chain.insert hfront ?_ ?_
    · simp only [spans, List.forall_mem_map]
      intro g hg
      have := h.unfinished g hg
      simp only [Segment.span]
      omega
    · simp only [spans, List.forall_mem_map]
      intro g hg
      have hsent := h.unfinished g hg
      have hhead := h.head g hg
      simp only [Span.Apart, Span.stop, Segment.span, seq_newSegment, sent_newSegment,
        len_newSegment]
      rcases (hfit g hg).2 with hsame | hbefore | hafter
      · rw [hsame] at hhead ⊢
        omega
      · omega
      · omega
  · apply forall_insertSegment h.unfinished (Nat.pos_of_ne_zero hdata)
    exact fun _ hlt _ hg => hg.trans hlt
  · apply forall_insertSegment h.within hend
    intro g hlt hsame _
    rw [seq_replace, len_replace, hsame]
    exact hend
  · apply forall_insertSegment h.head (.inl rfl)
    exact fun _ _ _ hg => hg
  · rintro x (hx | hx)
    · rw [hspans]
      exact (h.covered x hx).imp_right (covers_insert_of _)
    · obtain ⟨k, hk, hpos⟩ := hx.offset first (by rw [hseq]; omega)
      rw [hspans, hpos, hseq]
      refine .inr (covers_insert_self _ _ ⟨?_, ?_⟩)
      · simp [Segment.span]
      · simp only [Span.stop, Segment.span, seq_newSegment, sent_newSegment, len_newSegment]
        omega

/-- A packet that brings nothing new may be dropped. -/
theorem Assembled.drop (h : Assembled first len received f q) (hlen : len < 2 ^ 32)
    (hend : offset first p.dataSeq + p.datalen ≤ len)
    (hold : ∀ k < p.datalen, offset first p.dataSeq + k < f ∨
      Covers (spans first q) (offset first p.dataSeq + k)) :
    Assembled first len (fun x => received x ∨ p.Brings x) f q := by
  refine { h with covered := ?_ }
  rintro x (hx | hx)
  · exact h.covered x hx
  · obtain ⟨k, hk, hpos⟩ := hx.offset first (by omega)
    rw [hpos]
    exact hold k hk

/-- Only what is received matters of the history. -/
theorem Assembled.mono (h : Assembled first len received f q) {received' : U32 → Prop}
    (hsub : ∀ x, received' x → received x) : Assembled first len received' f q :=
  { h with covered := fun x hx => h.covered x (hsub x hx) }

/-- What is sent of a segment moves the start of its span, not the stop. -/
theorem span_stop (first : U32) (g : Segment) :
    (g.span first).stop = offset first g.seq + g.len := by
  have hsent := g.sent_le_len
  simp only [Span.stop, Segment.span]
  omega

theorem Assembled.covers_lt (h : Assembled first len received f q) {j : Nat}
    (hj : Covers (spans first q) j) :
    j < len := by
  obtain ⟨s, hs, -, hstop⟩ := hj
  obtain ⟨g, hg, rfl⟩ := List.mem_map.mp hs
  have hwithin := h.within g hg
  rw [span_stop] at hstop
  omega

section head

variable {g : Segment}

theorem Assembled.chain_rest (h : Assembled first len received f (g :: q)) :
    Chain (offset first g.seq + g.len) (spans first q) := by
  have hchain := h.chain.2
  rwa [span_stop] at hchain

/-- Behind the head nothing is sent. -/
theorem Assembled.rest_unsent (h : Assembled first len received f (g :: q))
    (hseq : offset first g.seq + g.sent = f) :
    ∀ g' ∈ q, g'.sent = 0 := by
  intro g' hg'
  have hsent := h.unfinished g (by simp)
  have hge := h.chain_rest.start_ge (List.mem_map_of_mem hg')
  have hhead := h.head g' (by simp [hg'])
  simp only [Segment.span] at hge
  omega

theorem Assembled.covered_cons (h : Assembled first len received f (g :: q))
    (hseq : offset first g.seq + g.sent = f) {x : U32} (hx : received x) :
    offset first x < offset first g.seq + g.len ∨ Covers (spans first q) (offset first x) := by
  have hsent := h.unfinished g (by simp)
  have hcov := h.covered x hx
  rw [spans_cons, covers_cons, Span.Has, span_stop] at hcov
  rcases hcov with hx | ⟨-, hx⟩ | hx
  · exact .inl (by omega)
  · exact .inl hx
  · exact .inr hx

/-- The head is sent to its end. -/
theorem Assembled.rest (h : Assembled first len received f (g :: q))
    (hseq : offset first g.seq + g.sent = f) :
    Assembled first len received (offset first g.seq + g.len) q where
  front := h.within g (by simp)
  chain := h.chain_rest
  unfinished := fun g' hg' => h.unfinished g' (by simp [hg'])
  within := fun g' hg' => h.within g' (by simp [hg'])
  head := fun g' hg' => .inl (h.rest_unsent hseq g' hg')
  covered := fun _ hx => h.covered_cons hseq hx

/-- The head is sent in part. -/
theorem Assembled.part {n : Nat} (h : Assembled first len received f (g :: q))
    (hseq : offset first g.seq + g.sent = f) (hn : n ≤ g.len - g.sent)
    (hpart : g.len ≠ g.sent + n) :
    Assembled first len received (f + n) (g.advance n hn :: q) := by
  have hsent := h.unfinished g (by simp)
  have hwithin := h.within g (by simp)
  have hadvance : (g.advance n hn).seq = g.seq ∧ (g.advance n hn).sent = g.sent + n ∧
      (g.advance n hn).len = g.len :=
    ⟨rfl, rfl, rfl⟩
  have hstart : ((g.advance n hn).span first).start = f + n := by
    simp only [Segment.span, hadvance]
    omega
  have hstop : ((g.advance n hn).span first).stop = offset first g.seq + g.len :=
    span_stop first (g.advance n hn)
  refine ⟨by omega, ?_, ?_, ?_, ?_, fun x hx => ?_⟩
  · rw [spans_cons, chain_cons, hstop, hstart]
    exact ⟨Nat.le_refl _, h.chain_rest⟩
  · refine List.forall_mem_cons.mpr ⟨?_, fun g' hg' => h.unfinished g' (by simp [hg'])⟩
    rw [hadvance.2.1, hadvance.2.2]
    omega
  · refine List.forall_mem_cons.mpr ⟨?_, fun g' hg' => h.within g' (by simp [hg'])⟩
    rwa [hadvance.1, hadvance.2.2]
  · refine List.forall_mem_cons.mpr ⟨.inr ?_, fun g' hg' => .inl (h.rest_unsent hseq g' hg')⟩
    rw [hadvance.1, hadvance.2.1]
    omega
  · rw [spans_cons, covers_cons, Span.Has, hstop, hstart]
    rcases h.covered_cons hseq hx with hx | hx
    · by_cases hlt : offset first x < f + n
      · exact .inl hlt
      · exact .inr (.inl ⟨by omega, hx⟩)
    · exact .inr (.inr hx)

/-- The head moves up by what a pass marks as sent. -/
theorem Assembled.pass {n : Nat} (h : Assembled first len received f (g :: q))
    (hseq : offset first g.seq + g.sent = f) (hn : n ≤ g.len - g.sent) :
    Assembled first len received (f + n)
    (if g.len = g.sent + n then q else g.advance n hn :: q) := by
  split
  · rename_i hfull
    have hend : f + n = offset first g.seq + g.len := by omega
    rw [hend]
    exact h.rest hseq
  · rename_i hpart
    exact h.part hseq hn hpart

end head

/-! ## The forward loop -/

theorem unsent_cons (g : Segment) (q : List Segment) :
    unsent (g :: q) = (g.len - g.sent) + unsent q := by
  simp [unsent]

/-- A send that takes everything takes the whole rest of the head. -/
theorem TakesAll.result {e : SocketEnv} (he : TakesAll e) {s : Session} (hport : ¬ proxied s.dest)
    (hsock : 0 ≤ s.socket) (i : Nat) (g : Segment) :
    patchHead s.dest (e.after i) g.rest = .unchanged ∧
      headResult (e.sends i) (e.after i) s g = .ok (g.len - g.sent) := by
  have hpatch : patchHead s.dest (e.after i) g.rest = .unchanged := by
    rw [patchHead, if_neg fun h => hport (.inl h)]
  have hlen := g.len_lt
  obtain ⟨m, hm, hbig⟩ := he i
  refine ⟨hpatch, ?_⟩
  rw [headResult, hpatch, hm, sockSend, if_neg (by omega), apply_unchanged, Segment.length_rest,
    Nat.min_eq_right (by omega)]

/-- The loop sends up to the first gap. -/
theorem forwardLoop_reach (abi : Abi) {e : SocketEnv} (he : TakesAll e) (hlen : len < 2 ^ 32)
    (i : Nat) (b : U32) (s : Session) (fwd : Bool) (hport : ¬ proxied s.dest) (hsock : 0 ≤ s.socket)
    (hseq : s.remoteSeq = first + BitVec.ofNat 32 f) (hb : unsent q < b.toNat)
    (h : Assembled first len received f q) :
    f + total Out.clientBytes (forwardLoop abi e q i b s fwd).2.2 = reach f (spans first q) := by
  induction q generalizing i b s f fwd with
  | nil => rfl
  | cons g q ih =>
    have hfront := h.front
    have hwithin := h.within g (by simp)
    have hsent := h.unfinished g (by simp)
    have hglen := g.len_lt
    rw [unsent_cons] at hb
    have hroom : BitVec.ofNat 32 (g.len - g.sent) < b := by
      rw [BitVec.lt_def, BitVec.toNat_ofNat, Nat.mod_eq_of_lt (by omega)]
      omega
    have hnext : g.seq + BitVec.ofNat 32 g.sent = s.remoteSeq ↔
        offset first g.seq + g.sent = f := by
      rw [seq_add_eq first, hseq, add_ofNat_inj (by omega) (by omega)]
    have hgstart : (g.span first).start = offset first g.seq + g.sent := rfl
    rw [spans_cons, reach, hgstart]
    unfold forwardLoop
    by_cases hstart : offset first g.seq + g.sent = f
    · rw [if_pos ⟨hnext.mpr hstart, hroom⟩, if_pos hstart]
      simp only
      obtain ⟨hpatch, hresult⟩ := he.result hport hsock i g
      refine sendHead_cases abi e.tun.rst (e.sends i) (e.after i) s g q fwd ?_ ?_
      · intro hover
        rw [hpatch] at hover
        cases hover
      · intro n hn hmark
        rw [hresult, marked, Nat.min_self] at hmark
        subst hmark
        have hfull : g.len = g.sent + (g.len - g.sent) := by omega
        have hpass := h.pass hstart hn
        rw [if_pos hfull] at hpass
        have hrest :=
          ih (i + 1) (b - BitVec.ofNat 32 (g.len - g.sent)) (passed s g q _ hn) true hport hsock
          ?_ ?_ hpass
        · have hstop : (g.span first).stop = f + (g.len - g.sent) := by
            rw [Span.stop, Segment.span, hstart]
          rw [hstop, ← hrest, hpatch, hresult]
          simp only [← hfull, decide_true, if_true, total_append, total_cons, total_nil,
            SendResult.count, Out.clientBytes, Patch.original]
          omega
        · rw [passed_remoteSeq s g q _ hn (hnext.mpr hstart), hseq, BitVec.add_assoc,
            ← BitVec.ofNat_add]
        · have hn' : g.len - g.sent < 2 ^ 32 := by omega
          rw [BitVec.toNat_sub_of_le (BitVec.le_of_lt hroom), BitVec.toNat_ofNat,
            Nat.mod_eq_of_lt hn']
          omega
    · rw [if_neg fun hcan => hstart (hnext.mp hcan.1), if_neg hstart]
      rfl

/-! ## The invariant -/

/-- Where the acknowledgement number stands when `f` bytes are forwarded. -/
inductive Count (first : U32) (f : Nat) (st : State) (remoteSeq : U32)
    (q : List Segment) : Prop where
  | fresh (hst : st = .listen) (hf : f = 0) (hseq : remoteSeq + 1 = first)
  | counted (hst : st.relays) (hseq : remoteSeq = first + BitVec.ofNat 32 f)
  | finished (hst : st = .closeWait) (hq : q = [])
      (hseq : remoteSeq = first + BitVec.ofNat 32 (f + 1))

/-- The invariant, over the fields it reads. -/
structure ReassemblyAt (first : U32) (len : Nat) (received : U32 → Prop) (dest : Nat)
    (connectSent : ConnectSent) (remoteStart remoteSeq : U32) (st : State) (q : List Segment)
    (socket : Int) : Prop where
  port : ¬ proxied dest
  direct : connectSent = .notSent
  isn : remoteStart + 1 = first
  live : st = .listen ∨ st.relays →
    0 ≤ socket ∧ ∃ f, Assembled first len received f q ∧ Count first f st remoteSeq q

abbrev Reassembly (first : U32) (len : Nat) (received : U32 → Prop) (s : Session) : Prop :=
  ReassemblyAt first len received s.dest s.connectSent s.remoteStart s.remoteSeq s.state
    s.forward s.socket

variable {s : Session}

theorem State.closed.not_live {st : State} (h : st.closed) : ¬ (st = .listen ∨ st.relays) := by
  rcases h with rfl | rfl <;> simp [State.relays]

/-- A session that is left for good keeps nothing to show. -/
theorem Reassembly.leave (h : Reassembly first len received s) (received' : U32 → Prop)
    {remoteSeq : U32} {st : State} {q : List Segment} {socket : Int}
    (hst : ¬ (st = .listen ∨ st.relays)) :
    ReassemblyAt first len received' s.dest s.connectSent s.remoteStart remoteSeq st q socket :=
  ⟨h.port, h.direct, h.isn, fun hlive => absurd hlive hst⟩

theorem Reassembly.mono (h : Reassembly first len received s) {received' : U32 → Prop}
    (hsub : ∀ x, received' x → received x) : Reassembly first len received' s := by
  refine ⟨h.port, h.direct, h.isn, fun hlive => ?_⟩
  obtain ⟨hsock, f, hq, hcount⟩ := h.live hlive
  exact ⟨hsock, f, hq.mono hsub, hcount⟩

theorem Reassembly.writeRst (h : Reassembly first len received s) (received' : U32 → Prop)
    (ok : Bool) :
    Reassembly first len received' (writeRst ok s).1 := by
  refine writeRst_cases ok s (fun _ => ?_) (fun st _ hst _ => ?_)
  · exact h.leave received' (by simp [State.relays])
  · exact h.leave received' hst.not_live

/-- The position that `FitsQueue` compares with. -/
theorem Count.expected (hcount : Count first f s.state s.remoteSeq s.forward)
    (hisn : s.remoteStart + 1 = first) (hf : f < 2 ^ 32)
    (hst : s.state ≠ .closeWait) : expected s = f := by
  unfold Tcp.expected
  cases hcount with
  | fresh hl hf _ => rw [if_pos hl, hf]
  | counted hrel hseq =>
    have hl : s.state ≠ .listen := by rcases hrel with h | h | h <;> simp [h]
    rw [if_neg hl, hisn, hseq, offset_add hf]
  | finished hcw => exact absurd hcw hst

/-- Queueing in an open session. -/
theorem Reassembly.queue (h : Reassembly first len received s) (hlen : len < 2 ^ 32)
    (hdata : p.datalen ≠ 0) (hend : offset first p.dataSeq + p.datalen ≤ len)
    (hst : s.state ≠ .closeWait)
    (hfit : s.state = .listen ∨ s.state = .synRecv ∨ s.state = .established →
      FitsAt (s.remoteStart + 1) (expected s) s.remoteSeq s.forward p) :
    Reassembly first len (fun x => received x ∨ p.Brings x) (queueTcp p s) := by
  rw [queueTcp_eq]
  refine ⟨h.port, h.direct, h.isn, fun hlive => ?_⟩
  obtain ⟨hsock, f, hq, hcount⟩ := h.live hlive
  have hfit := hfit (hlive.imp_right fun hrel => hrel.imp_right fun hrel => hrel.resolve_right hst)
  have hfront := hq.front
  rw [h.isn, hcount.expected h.isn (by omega) hst] at hfit
  refine ⟨hsock, f, ?_, ?_⟩
  · unfold FitsAt at hfit
    unfold queueTcp
    split
    · rename_i hbefore
      rw [if_pos hbefore] at hfit
      exact hq.drop hlen hend hfit
    · rename_i hbefore
      rw [if_neg hbefore] at hfit
      exact hq.insert hlen hdata hfit.1 hend hfit.2.1 hfit.2.2
  · cases hcount with
    | fresh hl hf hseq => exact .fresh hl hf hseq
    | counted hrel hseq => exact .counted hrel hseq
    | finished hcw => exact absurd hcw hst

/-- Data was forwarded since the FIN could be counted. -/
def Relaying (first : U32) (len : Nat) (received : U32 → Prop) (s : Session) : Prop :=
  s.state.relays → 0 ≤ s.socket ∧ ∃ f, Assembled first len received f s.forward ∧
    s.remoteSeq = first + BitVec.ofNat 32 f

theorem Reassembly.pass (h : Reassembly first len received s) (hlen : len < 2 ^ 32)
    (hst : s.state ≠ .listen) {g : Segment} {q : List Segment} {n : Nat} (hn : n ≤ g.len - g.sent)
    (hq : s.forward = g :: q) (hseq : g.seq + BitVec.ofNat 32 g.sent = s.remoteSeq) :
    Reassembly first len received (passed s g q n hn) ∧
    Relaying first len received (passed s g q n hn) := by
  have hrelay : Relaying first len received (passed s g q n hn) := by
    intro hrel
    obtain ⟨hsock, f, hqueue, hcount⟩ := h.live (.inr hrel)
    rw [hq] at hqueue
    have hfront := hqueue.front
    have hwithin := hqueue.within g (by simp)
    have hsent := g.sent_le_len
    refine ⟨hsock, f + n, ?_⟩
    cases hcount with
    | fresh hl => exact absurd hl hst
    | counted _ hcounted =>
      have hpos : offset first g.seq + g.sent = f := by
        rw [seq_add_eq first, hcounted, add_ofNat_inj (by omega) (by omega)] at hseq
        exact hseq
      refine ⟨hqueue.pass hpos hn, ?_⟩
      rw [passed_remoteSeq s g q n hn hseq, hcounted, BitVec.add_assoc, ← BitVec.ofNat_add]
    | finished _ hnil => simp [hq] at hnil
  refine ⟨⟨h.port, h.direct, h.isn, fun hlive => ?_⟩, hrelay⟩
  have hrel := hlive.resolve_left hst
  obtain ⟨hsock, f, hqueue, hcounted⟩ := hrelay hrel
  exact ⟨hsock, f, hqueue, .counted hrel hcounted⟩

theorem forwardData_reassembly (abi : Abi) (e : SocketEnv) (hlen : len < 2 ^ 32)
    (hst : s.state ≠ .listen) (h : Reassembly first len received s) :
    (forwardData abi e s).1.state = s.state ∧
    Reassembly first len received (forwardData abi e s).1 ∧
      ((forwardData abi e s).2.1 = true → Relaying first len received (forwardData abi e s).1) := by
  refine forwardData_rule (fun fwd t _ => t.state = s.state ∧ Reassembly first len received t ∧
    (fwd = true → Relaying first len received t)) abi e s [] (fun _ _ _ ht =>
      ht) ?_ ⟨rfl, h, by simp⟩
  rintro i fwd t tr g q n hn ⟨hstate, ht, -⟩ - hq hseq -
  obtain ⟨hpass, hrelay⟩ := ht.pass hlen (by rwa [hstate]) hn hq hseq
  exact ⟨hstate, hpass, fun _ => hrelay⟩

/-! ## The other phases -/

theorem acked_reassembly (e : SocketEnv) (t : Session) (h : Reassembly first len received t) :
    Reassembly first len received (acked e t) := by
  unfold acked
  split
  · exact h
  · exact h.leave received closed_closing.not_live

theorem ackForwarded_reassembly (e : SocketEnv) (fwd : Bool) (h : Reassembly first len received s)
    (hfwd : fwd = true → Relaying first len received s) :
    Reassembly first len received (ackForwarded e fwd s).1 := by
  refine ackForwarded_cases e fwd s ?_ ?_ ?_
  · exact fun _ => h
  · rintro t rfl hf hq hst
    refine acked_reassembly e _ ⟨h.port, h.direct, h.isn, fun _ => ?_⟩
    obtain ⟨hsock, f, hqueue, hcounted⟩ := hfwd hf (.inr (.inr hst))
    refine ⟨hsock, f, hqueue, .finished hst hq ?_⟩
    simp only [hcounted, BitVec.ofNat_add, BitVec.add_assoc]
    rfl
  · rintro t rfl _ _
    exact acked_reassembly e _ h

theorem readSocket_reassembly (e : SocketEnv) (h : Reassembly first len received s) :
    Reassembly first len received (readSocket e s).1 := by
  refine readSocket_cases e s h ?_ ?_ ?_ ?_ ?_
  · exact fun _ _ => h
  · exact fun _ _ => h.leave received closed_closing.not_live
  · intro asked hst
    refine handleEof_cases e { s with time := e.now } hst ?_ ?_ ?_
    · exact fun _ => h.leave received closed_closing.not_live
    · intro _ _
      refine h.leave received ?_
      split <;> simp [State.relays]
    · exact fun _ _ => h.leave received closed_closing.not_live
  · rintro asked bytes t _ _ _ rfl _
    exact h
  · rintro asked bytes t _ _ rfl _
    exact h.leave received closed_closing.not_live

theorem handleFin_reassembly (e : PacketEnv) (h : Reassembly first len received s) :
    Reassembly first len received (handleFin e s).1 := by
  refine handleFin_cases e s h ?_ ?_ ?_
  · intro hst hq
    refine ⟨h.port, h.direct, h.isn, fun _ => ?_⟩
    obtain ⟨hsock, f, hqueue, hcount⟩ := h.live (.inr (.inr (.inl hst)))
    refine ⟨hsock, f, hqueue, ?_⟩
    cases hcount with
    | fresh hl => simp [hst] at hl
    | counted _ hseq => exact .counted (.inr (.inr rfl)) hseq
    | finished _ hnil => exact absurd hnil hq
  · rintro t rfl hst hq
    refine ⟨h.port, h.direct, h.isn, fun hlive => ?_⟩
    obtain ⟨hsock, f, hqueue, hcount⟩ := h.live (.inr (.inr (.inl hst)))
    refine ⟨hsock, f, hqueue, ?_⟩
    cases hcount with
    | fresh hl => simp [hst] at hl
    | counted _ hseq =>
      cases hok : e.tun.ack
      · simp [hok, State.relays] at hlive
      · refine .finished (by simp) hq ?_
        simp only [hseq, BitVec.ofNat_add, BitVec.add_assoc]
        rfl
    | finished hcw => simp [hst] at hcw
  · rintro t rfl hst
    refine h.leave received ?_
    cases e.tun.ack <;> simp [State.relays]

theorem handleFlags_reassembly (e : PacketEnv) (p : Packet) (h : Reassembly first len received s) :
    Reassembly first len received (handleFlags e p s).1 := by
  refine handleFlags_cases e p s h ?_ ?_ ?_ ?_ ?_
  · exact h.leave received closed_closing.not_live
  · exact fun _ _ _ _ => handleFin_reassembly e h
  · rintro st rfl _
    cases hst : s.state with
    | synRecv =>
      refine ⟨h.port, h.direct, h.isn, fun _ => ?_⟩
      obtain ⟨hsock, f, hqueue, hcount⟩ := h.live (.inr (.inl hst))
      refine ⟨hsock, f, hqueue, ?_⟩
      cases hcount with
      | fresh hl => simp [hst] at hl
      | counted _ hseq => exact .counted (.inr (.inl rfl)) hseq
      | finished hcw => simp [hst] at hcw
    | lastAck => exact h.leave received closed_closing.not_live
    | _ => simpa only [Reassembly, hst] using h
  · exact fun _ _ => h
  · exact fun _ _ => h.writeRst received _

/-- A packet adds what it brings, unless the session is left. -/
theorem handleSession_reassembly (e : PacketEnv) (p : Packet) (hlen : len < 2 ^ 32)
    (hend : p.datalen ≠ 0 → offset first p.dataSeq + p.datalen ≤ len)
    (hfit : p.datalen ≠ 0 → s.state = .listen ∨ s.state = .synRecv ∨ s.state = .established →
      FitsAt (s.remoteStart + 1) (expected s) s.remoteSeq s.forward p)
    (h : Reassembly first len received s) :
    Reassembly first len (fun x => received x ∨ p.Brings x) (handleSession e p s).1 := by
  refine handleSession_cases e p s ?_ ?_ ?_ ?_
  · exact fun _ => h.writeRst _ _
  · rintro t w rfl _ _ _
    exact Reassembly.writeRst (s := { s with time := e.now, sendWindow := w }) h _ e.tun.rst
  · rintro t w rfl _ hnone
    refine handleFlags_reassembly e p (h.mono ?_)
    rintro x (hx | hx)
    · exact hx
    · exact absurd hx.2 (by omega)
  · rintro t w rfl _ hdata _ hst
    exact handleFlags_reassembly e p
      (Reassembly.queue (s := { s with time := e.now, sendWindow := w }) h hlen hdata (hend hdata)
        hst (hfit hdata))

theorem handleTcp_reassembly (abi : Abi) (e : PacketEnv) (p : Packet) (hlen : len < 2 ^ 32)
    (hend : p.datalen ≠ 0 → offset first p.dataSeq + p.datalen ≤ len)
    (hi : FitsQueue s (.packet e p)) (h : Reassembly first len received s) :
    Reassembly first len (fun x => received x ∨ p.Brings x) (handleTcp abi e p s).1 := by
  refine handleTcp_cases abi e p s ?_ ?_ ?_ ?_ ?_
  · intro hurg
    refine h.mono ?_
    rintro x (hx | hx)
    · exact hx
    · exact absurd hx.1 (by simp [hurg])
  · exact fun _ _ _ _ hport => absurd hport h.port
  · exact fun _ _ _ hport => absurd hport h.port
  · exact fun _ _ _ _ hport => absurd hport h.port
  · rintro t host rfl hurg _
    exact handleSession_reassembly (s := { s with hostname := host }) e p hlen hend (hi hurg) h

theorem checkTcpSocket_reassembly (abi : Abi) (e : SocketEnv) (hlen : len < 2 ^ 32)
    (h : Reassembly first len received s) :
    Reassembly first len received (checkTcpSocket abi e s).1 := by
  refine checkTcpSocket_cases abi e s ?_ ?_ ?_ ?_
  · exact fun _ => Reassembly.writeRst (s := { s with time := e.now }) h _ e.tun.rst
  · intro _ hst _
    refine readReply_cases e s hst ?_ ?_ ?_
    · exact fun _ _ => h.writeRst _ e.tun.rst
    · exact fun _ _ _ => h.writeRst _ e.tun.rst
    · intro _ _ hsent
      simp [h.direct] at hsent
  · intro _ hst _
    refine handshake_cases e s hst ?_ ?_
    · rintro t rfl
      refine ⟨h.port, h.direct, h.isn, fun _ => ?_⟩
      obtain ⟨hsock, f, hqueue, hcount⟩ := h.live (.inl hst)
      refine ⟨hsock, f, hqueue, ?_⟩
      cases hcount with
      | fresh _ hf hseq =>
        refine .counted (.inl rfl) ?_
        rw [hf]
        exact hseq.trans (by simp)
      | counted hrel => simp [hst, State.relays] at hrel
      | finished hcw => simp [hst] at hcw
    · rintro t rfl
      exact h.leave received closed_closing.not_live
  · intro _ hst
    obtain ⟨-, hf, hrelay⟩ := forwardData_reassembly abi e hlen hst h
    exact readSocket_reassembly e (ackForwarded_reassembly e _ hf hrelay)

theorem step_reassembly (abi : Abi) (i : Input) (hlen : len < 2 ^ 32)
    (hend : ∀ e p, i = .packet e p → p.datalen ≠ 0 → offset first p.dataSeq + p.datalen ≤ len)
    (hi : FitsQueue s i) (h : Reassembly first len received s) :
    Reassembly first len (fun x => received x ∨ i.Brings x) (step abi s i).1 := by
  have hsame (x : U32) (hx : received x ∨ False) : received x := hx.resolve_right id
  cases i with
  | packet e p => exact handleTcp_reassembly abi e p hlen (hend e p rfl) hi h
  | socket e => exact (checkTcpSocket_reassembly abi e hlen h).mono hsame
  | monitor e =>
    suffices h : Reassembly first len received (step abi s (.monitor e)).1 from h.mono hsame
    refine monitorStep_cases abi e s h ?_
    rintro t ev outs ⟨ms, st, rfl, hst, -⟩
    rcases hst with rfl | rfl
    · exact h
    · exact h.leave received closed_closing.not_live
  | check e =>
    suffices h : Reassembly first len received (checkTcpSession e s).1 from h.mono hsame
    refine checkTcpSession_cases e s ?_ ?_ ?_ ?_
    · exact fun _ => h
    · exact fun _ _ => h
    · rintro fd del t rfl _ _
      exact h.leave received (by simp [State.relays])
    · rintro fd del t rfl _ _ _
      exact h.leave received (by simp [State.relays])

/-- What the invariant says of a loop that sends everything. -/
theorem Reassembly.noStall (h : Reassembly first len received s) (abi : Abi)
    (hlen : len + 2 < 2 ^ 32) :
    NoStall abi received s := by
  intro hrel n hn e b he hb
  obtain ⟨hsock, f, hqueue, hcount⟩ := h.live (.inr hrel)
  have hfront := hqueue.front
  have hcov (j : Nat) (hj : j < n) (k : Nat) (hk : s.remoteSeq = first + BitVec.ofNat 32 k)
      (hlt : k + j < 2 ^ 32) : k + j < f ∨ Covers (spans first s.forward) (k + j) := by
    have hpos : offset first (s.remoteSeq + BitVec.ofNat 32 j) = k + j := by
      rw [hk, BitVec.add_assoc, ← BitVec.ofNat_add, offset_add hlt]
    have hx := hqueue.covered _ (hn j hj)
    rwa [hpos] at hx
  cases hcount with
  | fresh hl => rcases hrel with hst | hst | hst <;> simp [hst] at hl
  | counted _ hseq =>
    have hloop := forwardLoop_reach abi he (by omega) 0 b s false h.port hsock hseq hb hqueue
    have hn : f + n ≤ len := by
      -- a byte behind the end of the stream was not received
      by_contra hlt
      rcases hcov (len - f) (by omega) f hseq (by omega) with hfront' | hin
      · omega
      · have := hqueue.covers_lt hin
        omega
    have hreach : f + n ≤ reach f (spans first s.forward) := by
      refine hqueue.chain.le_reach fun j hj hlt => ?_
      have hj' := hcov (j - f) (by omega) f hseq (by omega)
      rw [Nat.add_sub_cancel' hj] at hj'
      exact hj'.resolve_left (by omega)
    omega
  | finished _ hnil hseq =>
    by_contra hpos
    have hfirst := hcov 0 (by omega) (f + 1) hseq (by omega)
    rw [hnil] at hfirst
    exact covers_nil _ (hfirst.resolve_left (by omega))

end

/-! ## Runs -/

theorem newSession_reassembly (len : Nat) (e : SynEnv) (p : Packet) (hport : ¬ proxied e.dest)
    (hdata : p.datalen = 0) : Reassembly (p.seq + 1) len (Received p []) (newSession e p) := by
  refine ⟨by simpa using hport, by simp, by simp,
    fun _ => ⟨by simp, 0, ?_, .fresh (by simp) rfl (by simp)⟩⟩
  rw [newSession_forward, if_pos hdata]
  refine ⟨Nat.zero_le _, trivial, by simp, by simp, by simp, ?_⟩
  rintro x (hx | ⟨i, hi, -⟩)
  · exact absurd hx.2 (by omega)
  · cases hi

/-- In every run whose packets fit the queue, what was received without a gap can be sent. -/
theorem received_is_sent (abi : Abi) (S : Bytes) (hS : S.length + 2 < 2 ^ 32) (e : SynEnv)
    (p : Packet) (hport : ¬ proxied e.dest) (hdata : p.datalen = 0) (is : List Input)
    (hin : ∀ e q, .packet e q ∈ is → Agrees S p.seq q)
    (h : Along (step abi) FitsQueue (newSession e p) is) :
    NoStall abi (Received p is) (run (step abi) (newSession e p) is).1 := by
  have hrun := run_history_invariant (step abi)
    (fun s i => (∀ e q, i = .packet e q → Agrees S p.seq q) ∧ FitsQueue s i)
    (fun before s _ => Reassembly (p.seq + 1) S.length (Received p before) s)
    (fun before s _ i hs hi => by
      refine (step_reassembly abi i (by omega) ?_ hi.2 hs).mono ?_
      · exact fun e q hq hlen => (hi.1 e q hq).within hlen (by omega)
      · rintro x (hx | ⟨j, hj, hx⟩)
        · exact .inl (.inl hx)
        · rcases List.mem_append.mp hj with hj | hj
          · exact .inl (.inr ⟨j, hj, hx⟩)
          · rw [List.mem_singleton] at hj
            exact .inr (hj ▸ hx))
    is [] (newSession e p) [] (newSession_reassembly S.length e p hport hdata)
    ((along_and _ _ _ _ _).mpr ⟨along_of_forall _ _ _ fun i hi e q hq => hin e q (hq ▸ hi), h⟩)
  exact hrun.noStall abi hS

/-- Two segments that arrive in the wrong order. -/
theorem received_is_sent_reordered :
    NoStall .arm64V8a (Received (synPacket [])
        [.socket writable, .packet plainEnv (plainPacket 1003 5001 (ascii "CD")),
          .packet plainEnv (plainPacket 1001 5001 (ascii "AB"))])
      (run (step .arm64V8a) (newSession (plainSyn 22) (synPacket []))
        [.socket writable, .packet plainEnv (plainPacket 1003 5001 (ascii "CD")),
          .packet plainEnv (plainPacket 1001 5001 (ascii "AB"))]).1 := by
  refine received_is_sent .arm64V8a (ascii "ABCD") (by decide) (plainSyn 22) (synPacket [])
    (by decide) rfl _ ?_
    (by decide +kernel)
  intro e q hq
  simp only [List.mem_cons, reduceCtorEq, Input.packet.injEq, List.not_mem_nil, or_false,
    false_or] at hq
  rcases hq with ⟨-, rfl⟩ | ⟨-, rfl⟩
  · exact fun _ => ⟨2, by decide, by decide, by decide +kernel⟩
  · exact fun _ => ⟨0, by decide, by decide, by decide +kernel⟩

/-- "AB" is forwarded, then the client sends "ABCD" in one segment. -/
def straddlingRun : List Input :=
  [.socket writable, .packet plainEnv (plainPacket 1001 5001 (ascii "AB")), .socket writable,
    .packet plainEnv (plainPacket 1001 5001 (ascii "ABCD"))]

/-- "ABC" and "CDE" are queued together. -/
def overlappingRun : List Input :=
  [.socket writable, .packet plainEnv (plainPacket 1001 5001 (ascii "ABC")),
    .packet plainEnv (plainPacket 1003 5001 (ascii "CDE"))]

/-- Only the handshake; the data is on the SYN. -/
def synOnlyRun : List Input := [.socket writable]

/-- "DE" arrives behind "ABC"; the sign bit of the numbers changes between them. -/
def signBoundaryRun : List Input :=
  [.socket writable, .packet plainEnv (plainPacket 0x7FFFFFFD 5001 (ascii "ABC")),
    .packet plainEnv (plainPacket 0x80000000 5001 (ascii "DE"))]

/-- The new bytes of a straddling segment are dropped; the segment behind an overlap and
the data on the SYN block the queue; "DE" is taken for old. -/
theorem received_but_stalled :
    ((∀ e q, .packet e q ∈ straddlingRun → Agrees (ascii "ABCD") 1000 q) ∧
      ¬ NoStall .arm64V8a (Received (synPacket []) straddlingRun)
        (run (step .arm64V8a) (newSession (plainSyn 22) (synPacket [])) straddlingRun).1) ∧
    ((∀ e q, .packet e q ∈ overlappingRun → Agrees (ascii "ABCDE") 1000 q) ∧
      ¬ NoStall .arm64V8a (Received (synPacket []) overlappingRun)
        (run (step .arm64V8a) (newSession (plainSyn 22) (synPacket [])) overlappingRun).1) ∧
    (Agrees (ascii "A") 1000 (synPacket (ascii "A")) ∧
      ¬ NoStall .arm64V8a (Received (synPacket (ascii "A")) synOnlyRun)
        (run (step .arm64V8a) (newSession (plainSyn 22) (synPacket (ascii "A"))) synOnlyRun).1) ∧
    ((∀ e q, .packet e q ∈ signBoundaryRun → Agrees (ascii "ABCDE") 0x7FFFFFFC q) ∧
      ¬ NoStall .arm64V8a (Received { synPacket [] with seq := 0x7FFFFFFC } signBoundaryRun)
        (run (step .arm64V8a) (newSession (plainSyn 22) { synPacket [] with seq := 0x7FFFFFFC })
          signBoundaryRun).1) := by
  have htakes : TakesAll writable := fun _ => ⟨65536, rfl, by decide⟩
  refine ⟨⟨?_, fun h => ?_⟩, ⟨?_, fun h => ?_⟩, ⟨fun _ => ⟨rfl, by decide +kernel⟩, fun h => ?_⟩,
    ⟨?_, fun h => ?_⟩⟩
  · intro e q hq
    simp only [straddlingRun, List.mem_cons, reduceCtorEq, Input.packet.injEq,
      List.not_mem_nil, or_false, false_or] at hq
    rcases hq with ⟨-, rfl⟩ | ⟨-, rfl⟩
    · exact fun _ => ⟨0, by decide, by decide, by decide +kernel⟩
    · exact fun _ => ⟨0, by decide, by decide, by decide +kernel⟩
  · exact absurd (h (by decide +kernel) 2 (by decide +kernel) writable 0xFFFFFFFF htakes
      (by decide +kernel))
      (by decide +kernel)
  · intro e q hq
    simp only [overlappingRun, List.mem_cons, reduceCtorEq, Input.packet.injEq,
      List.not_mem_nil, or_false, false_or] at hq
    rcases hq with ⟨-, rfl⟩ | ⟨-, rfl⟩
    · exact fun _ => ⟨0, by decide, by decide, by decide +kernel⟩
    · exact fun _ => ⟨2, by decide, by decide, by decide +kernel⟩
  · exact absurd (h (by decide +kernel) 5 (by decide +kernel) writable 0xFFFFFFFF htakes
      (by decide +kernel))
      (by decide +kernel)
  · exact absurd (h (by decide +kernel) 1 (by decide +kernel) writable 0xFFFFFFFF htakes
      (by decide +kernel))
      (by decide +kernel)
  · intro e q hq
    simp only [signBoundaryRun, List.mem_cons, reduceCtorEq, Input.packet.injEq,
      List.not_mem_nil, or_false, false_or] at hq
    rcases hq with ⟨-, rfl⟩ | ⟨-, rfl⟩
    · exact fun _ => ⟨0, by decide, by decide, by decide +kernel⟩
    · exact fun _ => ⟨3, by decide, by decide, by decide +kernel⟩
  · exact absurd (h (by decide +kernel) 5 (by decide +kernel) writable 0xFFFFFFFF htakes
      (by decide +kernel))
      (by decide +kernel)

end PdaNetClient.Tcp
