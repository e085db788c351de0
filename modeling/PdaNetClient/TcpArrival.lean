import Mathlib.Data.List.Sort
import PdaNetClient.TcpRuns

/-!
# The order of arrival

`queue_tcp` walks its queue with `compare_u32`, which compares as signed integers but at the one
distance `0x7FFFFFFF`. Numbers that lie together are therefore totally ordered, and a queue that
only grows depends on what was received, not on when, or how often.
-/
namespace PdaNetClient.Tcp

set_option autoImplicit false

/-- What the queue holds of a segment. -/
def Segment.content (g : Segment) : U32 × Nat × Bytes := (g.seq, g.len, g.data.bytes)

def contents (s : Session) : List (U32 × Nat × Bytes) := s.forward.map Segment.content

/-- The packets are queued one by one. -/
def queueAll (ps : List Packet) (s : Session) : Session := ps.foldl (fun s p => queueTcp p s) s

/-- The packet carries the bytes of a stream; `stream n` is the byte numbered `n`. -/
def CarriesBytes (stream : U32 → UInt8) (p : Packet) : Prop :=
  ∀ i (_ : i < p.datalen), p.data.bytes[i] = stream (p.seq + BitVec.ofNat 32 i)

instance (stream : U32 → UInt8) (p : Packet) : Decidable (CarriesBytes stream p) :=
  inferInstanceAs (Decidable (∀ i (_ : i < p.datalen), _))

/-- No two of the numbers are more than 2^30 apart. -/
def Close (a b : U32) : Prop := (a - b).toNat ≤ 2 ^ 30 ∨ (b - a).toNat ≤ 2 ^ 30

def CloseTogether (ps : List Packet) : Prop := ∀ p ∈ ps, ∀ p' ∈ ps, Close p.seq p'.seq

instance (a b : U32) : Decidable (Close a b) := inferInstanceAs (Decidable (_ ∨ _))
instance (ps : List Packet) : Decidable (CloseTogether ps) :=
  inferInstanceAs (Decidable (∀ p ∈ ps, _))

/-- The queue is in the order of `compare_u32`, without a number twice. -/
def Ascending (q : List Segment) : Prop := q.Pairwise fun g g' => compareU32 g.seq g'.seq < 0

/-- Every segment has the longest data that was received under its number. -/
def HoldsLongest (ps : List Packet) (q : List Segment) : Prop :=
  ∀ g ∈ q, (∃ p ∈ ps, p.seq = g.seq ∧ p.data = g.data) ∧ ∀ p ∈ ps, p.seq = g.seq → p.datalen ≤ g.len

/-! ## One packet -/

/-- Of numbers that lie close together the comparison is the signed one. -/
theorem compareU32_close {a b : U32} (h : Close a b) : compareU32 a b < 0 ↔ a.toInt < b.toInt := by
  rw [compareU32_neg]
  refine and_iff_left fun hfar => ?_
  have ha := BitVec.toInt_eq_toNat_cond a
  have hb := BitVec.toInt_eq_toNat_cond b
  have hla := a.isLt
  have hlb := b.isLt
  rcases h with h | h
  · rw [BitVec.toNat_sub] at h
    split at ha <;> split at hb <;> omega
  · rw [BitVec.toNat_sub] at h
    split at ha <;> split at hb <;> omega

/-- The packet's number is in the queue behind it, with its data or longer data. -/
theorem insertSegment_brings (p : Packet) (q : List Segment) :
    ∃ g ∈ insertSegment p q, g.seq = p.seq ∧ p.datalen ≤ g.len := by
  induction q with
  | nil => exact ⟨newSegment p, by simp [insertSegment], rfl, le_refl _⟩
  | cons g q ih =>
    unfold insertSegment
    split
    · obtain ⟨g', hmem, hg'⟩ := ih
      exact ⟨g', List.mem_cons_of_mem g hmem, hg'⟩
    · rename_i hlt
      split
      · exact ⟨newSegment p, List.mem_cons_self, rfl, le_refl _⟩
      · rename_i hgt
        have hseq : g.seq = p.seq := eq_of_compareU32 hlt hgt
        split
        · rename_i hlen
          exact ⟨g.replace p.data hlen, List.mem_cons_self, hseq, le_refl _⟩
        · rename_i hlen
          exact ⟨g, List.mem_cons_self, hseq, not_lt.mp hlen⟩

/-- What is in the queue stays there, or is replaced by longer data. -/
theorem insertSegment_keeps (p : Packet) {q : List Segment} {g : Segment} (hg : g ∈ q) :
    ∃ g' ∈ insertSegment p q, g'.seq = g.seq ∧ g.len ≤ g'.len := by
  induction q with
  | nil => simp at hg
  | cons g₀ q ih =>
    unfold insertSegment
    split
    · rcases List.mem_cons.mp hg with rfl | hg
      · exact ⟨g, List.mem_cons_self, rfl, le_refl _⟩
      · obtain ⟨g', hmem, hg'⟩ := ih hg
        exact ⟨g', List.mem_cons_of_mem g₀ hmem, hg'⟩
    · split
      · exact ⟨g, List.mem_cons_of_mem _ hg, rfl, le_refl _⟩
      · split
        · rename_i hlen
          rcases List.mem_cons.mp hg with rfl | hg
          · exact ⟨g.replace p.data hlen, List.mem_cons_self, rfl, le_of_lt hlen⟩
          · exact ⟨g, List.mem_cons_of_mem _ hg, rfl, le_refl _⟩
        · exact ⟨g, hg, rfl, le_refl _⟩

/-- A number of the queue was there before, or is the packet's. -/
theorem seq_insertSegment {p : Packet} {q : List Segment} {x : Segment}
    (hx : x ∈ insertSegment p q) :
    x.seq = p.seq ∨ ∃ g ∈ q, g.seq = x.seq := by
  rcases mem_insertSegment hx with hx | rfl | ⟨g, -, hlen, hseq, rfl⟩
  · exact .inr ⟨x, hx, rfl⟩
  · exact .inl rfl
  · exact .inl (by rw [seq_replace, hseq])

theorem insertSegment_ascending (p : Packet) (q : List Segment)
    (hclose : ∀ g ∈ q, Close g.seq p.seq) (h : q.Pairwise fun g g' => g.seq.toInt < g'.seq.toInt) :
    (insertSegment p q).Pairwise fun g g' => g.seq.toInt < g'.seq.toInt := by
  induction q with
  | nil => simp [insertSegment]
  | cons g q ih =>
    obtain ⟨hfirst, hrest⟩ := List.pairwise_cons.mp h
    have hcmp := compareU32_close (hclose g List.mem_cons_self)
    unfold insertSegment
    split
    · rename_i hlt
      refine List.pairwise_cons.mpr ⟨fun x hx => ?_,
        ih (fun g' hg' => hclose g' (List.mem_cons_of_mem g hg')) hrest⟩
      rcases seq_insertSegment hx with hseq | ⟨g', hg', hseq⟩
      · rw [hseq]
        exact hcmp.mp hlt
      · rw [← hseq]
        exact hfirst g' hg'
    · rename_i hlt
      split
      · rename_i hgt
        have hbefore : p.seq.toInt < g.seq.toInt := by
          have hne : g.seq.toInt ≠ p.seq.toInt :=
            fun heq => (compareU32_pos.mp hgt).1 (BitVec.eq_of_toInt_eq heq)
          rw [hcmp] at hlt
          omega
        refine List.pairwise_cons.mpr ⟨fun x hx => ?_, h⟩
        rcases List.mem_cons.mp hx with rfl | hx
        · exact hbefore
        · exact hbefore.trans (hfirst x hx)
      · split
        · exact List.pairwise_cons.mpr ⟨hfirst, hrest⟩
        · exact h

/-! ## A list of packets -/

/-- The queue of a session that forwarded nothing, behind the packets `ps`. -/
structure Gathers (remoteSeq : U32) (ps : List Packet) (q : List Segment) : Prop where
  ascending : q.Pairwise fun g g' => g.seq.toInt < g'.seq.toInt
  origin : ∀ g ∈ q, ∃ p ∈ ps, ¬ compareU32 p.seq remoteSeq < 0 ∧ p.seq = g.seq ∧ p.data = g.data
  complete : ∀ p ∈ ps, ¬ compareU32 p.seq remoteSeq < 0 → ∃ g ∈ q, g.seq = p.seq ∧ p.datalen ≤ g.len

section

variable {remoteSeq : U32} {ps qs : List Packet} {q q' : List Segment} {s : Session}

theorem Gathers.insert (h : Gathers remoteSeq ps q) (p : Packet)
    (hclose : ∀ p' ∈ ps, Close p'.seq p.seq) (hnew : ¬ compareU32 p.seq remoteSeq < 0) :
    Gathers remoteSeq (ps ++ [p]) (insertSegment p q) := by
  refine ⟨insertSegment_ascending p q (fun g hg => ?_) h.ascending,
    fun x hx => ?_, fun p' hp' hnew' => ?_⟩
  · obtain ⟨p', hp', -, hseq, -⟩ := h.origin g hg
    rw [← hseq]
    exact hclose p' hp'
  · rcases mem_insertSegment hx with hx | rfl | ⟨g, -, hlen, hseq, rfl⟩
    · obtain ⟨p', hp', hp''⟩ := h.origin x hx
      exact ⟨p', List.mem_append_left _ hp', hp''⟩
    · exact ⟨p, by simp, hnew, rfl, rfl⟩
    · exact ⟨p, by simp, hnew, hseq.symm, rfl⟩
  · rcases List.mem_append.mp hp' with hp' | hp'
    · obtain ⟨g, hg, hseq, hle⟩ := h.complete p' hp' hnew'
      obtain ⟨g', hg', hseq', hle'⟩ := insertSegment_keeps p hg
      exact ⟨g', hg', hseq'.trans hseq, hle.trans hle'⟩
    · rw [List.mem_singleton] at hp'
      subst hp'
      exact insertSegment_brings p' q

theorem Gathers.queue (h : Gathers s.remoteSeq ps s.forward) (p : Packet)
    (hclose : ∀ p' ∈ ps, Close p'.seq p.seq) :
    Gathers s.remoteSeq (ps ++ [p]) (queueTcp p s).forward := by
  unfold queueTcp
  split
  · rename_i hold
    refine ⟨h.ascending, fun g hg => ?_, fun p' hp' hnew => ?_⟩
    · obtain ⟨p', hp', hp''⟩ := h.origin g hg
      exact ⟨p', List.mem_append_left _ hp', hp''⟩
    · rcases List.mem_append.mp hp' with hp' | hp'
      · exact h.complete p' hp' hnew
      · rw [List.mem_singleton] at hp'
        exact absurd (hp' ▸ hold) hnew
  · rename_i hnew
    exact h.insert p hclose hnew

theorem Gathers.queueAll (h : Gathers s.remoteSeq ps s.forward)
    (hclose : CloseTogether (ps ++ qs)) :
    Gathers s.remoteSeq (ps ++ qs) (queueAll qs s).forward := by
  induction qs generalizing ps s with
  | nil => simpa [Tcp.queueAll] using h
  | cons p qs ih =>
    have hnext := h.queue p fun p' hp' => hclose p' (by simp [hp']) p (by simp)
    rw [← queueTcp_remoteSeq p s] at hnext
    have hrest := ih hnext (by rwa [List.append_assoc, List.singleton_append])
    rwa [List.append_assoc, List.singleton_append, queueTcp_remoteSeq] at hrest

/-- From an empty queue. -/
theorem queueAll_gathers (s : Session) (hempty : s.forward = []) (hclose : CloseTogether ps) :
    Gathers s.remoteSeq ps (queueAll ps s).forward := by
  have hstart : Gathers s.remoteSeq [] s.forward := by
    rw [hempty]
    exact ⟨.nil, by simp, by simp⟩
  simpa using hstart.queueAll (by simpa using hclose)

theorem Gathers.unique (h : Gathers remoteSeq ps q) {g g' : Segment} (hg : g ∈ q) (hg' : g' ∈ q)
    (hseq : g.seq = g'.seq) :
    g = g' := by
  have hnodup : (q.map Segment.seq).Nodup := by
    rw [List.Nodup, List.pairwise_map]
    exact h.ascending.imp fun hlt heq => by simp [heq] at hlt
  exact List.inj_on_of_nodup_map hnodup hg hg' hseq

theorem Gathers.longest (h : Gathers remoteSeq ps q) : HoldsLongest ps q := by
  intro g hg
  obtain ⟨p, hp, hnew, hseq, hdata⟩ := h.origin g hg
  refine ⟨⟨p, hp, hseq, hdata⟩, fun p' hp' hseq' => ?_⟩
  obtain ⟨g', hg', hseq'', hle⟩ := h.complete p' hp' (by rwa [hseq', ← hseq])
  rwa [h.unique hg' hg (hseq''.trans hseq')] at hle

theorem CarriesBytes.ext {stream : U32 → UInt8} {p p' : Packet} (h : CarriesBytes stream p)
    (h' : CarriesBytes stream p') (hseq : p.seq = p'.seq) (hlen : p.datalen = p'.datalen) :
    p.data.bytes = p'.data.bytes := by
  apply List.ext_getElem hlen
  intro i hi hi'
  rw [h i hi, h' i hi', hseq]

/-- What was received under a number decides what the queue holds for it. -/
theorem Gathers.mem_contents (h : Gathers remoteSeq ps q) (h' : Gathers remoteSeq qs q')
    (hsame : ∀ p, p ∈ qs ↔ p ∈ ps) {stream : U32 → UInt8}
    (hstream : ∀ p ∈ ps, CarriesBytes stream p) {g : Segment} (hg : g ∈ q) :
    ∃ g' ∈ q', g'.content = g.content := by
  obtain ⟨p, hp, hnew, hseq, hdata⟩ := h.origin g hg
  obtain ⟨g', hg', hseq', hle⟩ := h'.complete p ((hsame p).mpr hp) hnew
  obtain ⟨p', hp', -, hseq'', hdata'⟩ := h'.origin g' hg'
  have hlen : g.len = p.datalen := by rw [Segment.len, ← hdata]; rfl
  have hlen' : g'.len = p'.datalen := by rw [Segment.len, ← hdata']; rfl
  have hback := (h.longest g hg).2 p' ((hsame p').mp hp') (by rw [hseq'', hseq', hseq])
  have hbytes :=
    (hstream p hp).ext (hstream p' ((hsame p').mp hp')) (by rw [hseq'', hseq']) (by omega)
  refine ⟨g', hg', ?_⟩
  simp only [Segment.content, Prod.mk.injEq]
  exact ⟨hseq'.trans hseq, by omega, by rw [← hdata, ← hdata', hbytes]⟩

/-- The order of the contents. -/
def Before (c d : U32 × Nat × Bytes) : Prop := c.1.toInt < d.1.toInt

instance : Std.Antisymm Before := ⟨fun _ _ h h' => absurd (h.trans h') (lt_irrefl _)⟩
instance : Std.Irrefl Before := ⟨fun _ => lt_irrefl _⟩

theorem Gathers.before (h : Gathers remoteSeq ps q) : (q.map Segment.content).Pairwise Before :=
  List.pairwise_map.mpr h.ascending

end

/-- Packets that carry one stream under numbers that lie together leave the same queue in whatever
order they come, and however often: each number once and in order, with the longest data, and none
left out that is not before `remote_seq`. -/
theorem arrival_order (stream : U32 → UInt8) (s : Session) (hempty : s.forward = [])
    (ps qs : List Packet) (hstream : ∀ p ∈ ps, CarriesBytes stream p) (hclose : CloseTogether ps)
    (hsame : ∀ p, p ∈ qs ↔ p ∈ ps) :
    contents (queueAll qs s) = contents (queueAll ps s) ∧ Ascending (queueAll ps s).forward ∧
      HoldsLongest ps (queueAll ps s).forward ∧
      ∀ p ∈ ps, ¬ compareU32 p.seq s.remoteSeq < 0 →
      ∃ g ∈ (queueAll ps s).forward, g.seq = p.seq := by
  have hps := queueAll_gathers s hempty hclose
  have hqs : Gathers s.remoteSeq qs (queueAll qs s).forward := by
    apply queueAll_gathers s hempty
    exact fun p hp p' hp' => hclose p ((hsame p).mp hp) p' ((hsame p').mp hp')
  refine ⟨?_, ?_, hps.longest, fun p hp hnew => ?_⟩
  · apply List.Pairwise.eq_of_mem_iff hqs.before hps.before
    intro c
    constructor
    · intro hc
      obtain ⟨g, hg, rfl⟩ := List.mem_map.mp hc
      obtain ⟨g', hg', heq⟩ :=
        hqs.mem_contents hps (fun p => (hsame p).symm) (fun p hp => hstream p ((hsame p).mp hp)) hg
      exact List.mem_map.mpr ⟨g', hg', heq⟩
    · intro hc
      obtain ⟨g, hg, rfl⟩ := List.mem_map.mp hc
      obtain ⟨g', hg', heq⟩ := hps.mem_contents hqs hsame hstream hg
      exact List.mem_map.mpr ⟨g', hg', heq⟩
  · refine hps.ascending.imp_of_mem fun {g g'} hg hg' hlt => ?_
    obtain ⟨p, hp, -, hseq, -⟩ := hps.origin g hg
    obtain ⟨p', hp', -, hseq', -⟩ := hps.origin g' hg'
    exact (compareU32_close (hseq ▸ hseq' ▸ hclose p hp p' hp')).mpr hlt
  · obtain ⟨g, hg, hseq, -⟩ := hps.complete p hp hnew
    exact ⟨g, hg, hseq⟩

/-- "ab", a cut copy of it and "cd" behind it, in two orders. -/
theorem arrival_order_pieces :
    contents (queueAll [plainPacket 1003 5001 (ascii "cd"), plainPacket 1001 5001 (ascii "a"),
      plainPacket 1003 5001 (ascii "cd"),
        plainPacket 1001 5001 (ascii "ab")] (newSession (plainSyn 22) (synPacket []))) =
      contents (queueAll [plainPacket 1001 5001 (ascii "ab"), plainPacket 1001 5001 (ascii "a"),
        plainPacket 1003 5001 (ascii "cd")]
        (newSession (plainSyn 22) (synPacket []))) := by
  apply (arrival_order (fun n => (ascii "abcd").getD (n - 1001).toNat 0)
    (newSession (plainSyn 22) (synPacket [])) rfl
    [plainPacket 1001 5001 (ascii "ab"), plainPacket 1001 5001 (ascii "a"),
      plainPacket 1003 5001 (ascii "cd")] _
    (by decide +kernel) (by decide +kernel) ?_).1
  intro p
  simp only [List.mem_cons, List.not_mem_nil, or_false]
  tauto

end PdaNetClient.Tcp
