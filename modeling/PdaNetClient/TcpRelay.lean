import PdaNetClient.SessionRuns
import PdaNetClient.TcpArrival
import PdaNetClient.TcpDownstream
import PdaNetClient.TcpUpstream

/-!
# A TCP flow through the loop

A session that is not relayed through the proxy, among all others. The queue only gets the
numbers of the packets with data, so that a client that puts none on its SYN never has a
segment with the number of the SYN, and both streams come through in order.
-/
namespace PdaNetClient.Tcp

open Http Numbered Runs

set_option autoImplicit false

/-! ## The numbers in the queue -/

section

variable {s : Session} {P : U32 → Prop}

theorem handleFin_forward (e : PacketEnv) (s : Session) :
    (handleFin e s).1.forward = s.forward := by
  refine handleFin_cases e s rfl (fun _ _ => rfl) ?_ ?_
  · rintro t rfl _ _
    rfl
  · rintro t rfl _
    rfl

theorem handleFlags_forward (e : PacketEnv) (p : Packet) (s : Session) :
    (handleFlags e p s).1.forward = s.forward := by
  refine handleFlags_cases e p s rfl rfl ?_ ?_ ?_ ?_
  · exact fun _ _ _ _ => handleFin_forward e s
  · exact fun _ _ _ => rfl
  · exact fun _ _ => rfl
  · exact fun _ _ => writeRst_forward _ s

theorem ackForwarded_forward (e : SocketEnv) (fwd : Bool) (s : Session) :
    (ackForwarded e fwd s).1.forward = s.forward := by
  have hacked (t : Session) : (acked e t).forward = t.forward := by
    unfold acked
    split <;> rfl
  refine ackForwarded_cases e fwd s (fun _ => rfl) ?_ ?_
  · rintro t rfl _ _ _
    exact hacked _
  · rintro t rfl _ _
    exact hacked _

theorem readSocket_forward (e : SocketEnv) (s : Session) :
    (readSocket e s).1.forward = s.forward := by
  refine readSocket_cases e s rfl (fun _ _ => rfl) (fun _ _ => rfl) ?_ ?_ ?_
  · intro _ hst
    refine handleEof_cases e { s with time := e.now } hst ?_ ?_ ?_
    · exact fun _ => rfl
    · exact fun _ _ => rfl
    · exact fun _ _ => rfl
  · rintro _ _ t _ _ _ rfl _
    rfl
  · rintro _ _ t _ _ rfl _
    rfl

theorem forwardData_numbers (abi : Abi) (e : SocketEnv) (h : ∀ g ∈ s.forward, P g.seq) :
    ∀ g ∈ (forwardData abi e s).1.forward, P g.seq := by
  refine forwardData_rule (fun _ t _ => ∀ g ∈ t.forward, P g.seq) abi e s [] (fun _ _ _ => id) ?_ h
  intro i fwd t tr g q n hn ht _ hq _ _ g' hg'
  rcases mem_passed hq hg' with hg' | rfl
  · exact ht g' hg'
  · exact ht g (by simp [hq])

theorem queueTcp_numbers {p : Packet} (hp : P p.seq) (h : ∀ g ∈ s.forward, P g.seq) :
    ∀ g ∈ (queueTcp p s).forward, P g.seq := by
  rcases queueTcp_cases p s with hq | hq
  · rwa [hq]
  · rw [hq]
    intro g hg
    rcases seq_insertSegment hg with hseq | ⟨g', hg', hseq⟩
    · exact hseq ▸ hp
    · exact hseq ▸ h g' hg'

theorem handleSession_numbers (e : PacketEnv) {p : Packet} (hp : p.datalen ≠ 0 → P p.seq)
    (h : ∀ g ∈ s.forward, P g.seq) :
    ∀ g ∈ (handleSession e p s).1.forward, P g.seq := by
  refine handleSession_cases e p s ?_ ?_ ?_ ?_
  · intro _
    rwa [writeRst_forward]
  · rintro t w rfl _ _ _
    rwa [writeRst_forward]
  · rintro t w rfl _ _
    rwa [handleFlags_forward]
  · rintro t w rfl _ hlen _ _
    rw [handleFlags_forward]
    exact queueTcp_numbers (s := { s with time := e.now, sendWindow := w }) (hp hlen) h

/-- What a packet with data needs for its number to be queued. -/
def Input.Numbered (P : U32 → Prop) : Input → Prop
  | .packet _ p => p.datalen ≠ 0 → P p.seq
  | _ => True

/-- A number in the queue of a direct session was there before the step, or is that of a packet with
data. -/
theorem step_numbers (abi : Abi) (hport : ¬ proxied s.dest) {i : Input} (hi : i.Numbered P)
    (h : ∀ g ∈ s.forward, P g.seq) :
    ∀ g ∈ (step abi s i).1.forward, P g.seq := by
  cases i with
  | packet e p =>
    show ∀ g ∈ (handleTcp abi e p s).1.forward, P g.seq
    refine handleTcp_cases abi e p s (fun _ => h) ?_ ?_ ?_ ?_
    · exact fun _ _ _ _ hproxied => absurd hproxied hport
    · exact fun _ _ _ hproxied => absurd hproxied hport
    · exact fun _ _ _ _ hproxied => absurd hproxied hport
    · rintro t host rfl _ _
      exact handleSession_numbers (s := { s with hostname := host }) e hi h
  | socket e =>
    show ∀ g ∈ (checkTcpSocket abi e s).1.forward, P g.seq
    refine checkTcpSocket_cases abi e s ?_ ?_ ?_ ?_
    · intro _
      rwa [writeRst_forward]
    · intro _ hst _
      refine readReply_cases e s hst ?_ ?_ ?_
      · intro _ _
        rwa [writeRst_forward]
      · intro _ _ _
        rwa [writeRst_forward]
      · exact fun _ _ _ => h
    · intro _ hst _
      refine handshake_cases e s hst ?_ ?_
      · rintro t rfl
        exact h
      · rintro t rfl
        exact h
    · intro _ _
      rw [relay, readSocket_forward, ackForwarded_forward]
      exact forwardData_numbers abi e h
  | monitor e =>
    refine monitorStep_cases abi e s h ?_
    rintro t ev outs ⟨ms, st, rfl, -, -⟩
    exact h
  | check e =>
    show ∀ g ∈ (checkTcpSession e s).1.forward, P g.seq
    refine checkTcpSession_cases e s (fun _ => h) (fun _ _ => h) ?_ ?_
    · rintro fd del t rfl _ _
      exact h
    · rintro fd del t rfl _ _ _
      exact h

end

/-! ## One direct session -/

/-- A client that sends the stream `S` without data on its SYN, on a socket whose sends take a
count. -/
def Waits (S : Bytes) (start : U32) : Input → Prop
  | .packet _ p => Agrees S start p ∧ (p.syn = true → p.datalen = 0)
  | .socket e => ∀ i, ∃ n, e.sends i = .ok n
  | _ => True

section

variable {S : Bytes} {start : U32} {s : Session}

theorem Waits.honest {i : Input} (h : Waits S start i) : Honest S start i := by
  cases i with
  | packet e p => exact h.1
  | socket e => exact h
  | monitor e => trivial
  | check e => trivial

/-- Data behind the SYN does not come around to its number. -/
theorem Waits.numbered {i : Input} (h : Waits S start i) (hS : S.length + 2 < 2 ^ 32) :
    i.Numbered (· ≠ start) := by
  cases i with
  | packet e p =>
    intro hlen heq
    have hsyn : ¬ p.syn = true := fun hsyn => hlen (h.2 hsyn)
    have hcarries := h.1 hlen
    rw [if_neg hsyn] at hcarries
    obtain ⟨k, hk, hbound, -⟩ := hcarries
    exact ne_counted start (k := k) (by omega) (heq.symm.trans hk)
  | socket e => trivial
  | monitor e => trivial
  | check e => trivial

theorem synDataApart_of_numbers (h : ∀ g ∈ s.forward, g.seq ≠ s.remoteStart)
    (i : Input) : SynDataApart s i := by
  cases i with
  | socket e => exact fun _ _ _ g hg hseq => absurd hseq (h g (List.mem_of_mem_head? hg))
  | packet e p => trivial
  | monitor e => trivial
  | check e => trivial

/-- A session that sends no CONNECT request has no reply to read. -/
theorem headerRead_of_direct (abi : Abi) (hport : ¬ proxied s.dest)
    (hsent : s.connectSent = .notSent) (i : Input) :
    HeaderRead abi s i := by
  cases i with
  | packet e p => exact fun _ hproxied => absurd hproxied hport
  | socket e => exact fun _ _ _ h => by simp [hsent] at h
  | monitor e => trivial
  | check e => trivial

/-- What holds of a direct session with the outputs `tr`. -/
structure Direct (S : Bytes) (start : U32) (s : Session) (tr : List Out) : Prop where
  upstream : Upstream S start s (accepted tr)
  down : Down s tr
  early : Early s
  numbers : ∀ g ∈ s.forward, g.seq ≠ start

theorem step_direct (abi : Abi) {i : Input} {tr : List Out} (hS : S.length + 2 < 2 ^ 32)
    (hi : Waits S start i) (h : Direct S start s tr) :
    Direct S start (step abi s i).1 (tr ++ (step abi s i).2) where
  upstream := by
    have hapart := synDataApart_of_numbers (by rw [h.upstream.isn]; exact h.numbers) i
    exact step_upstream abi i tr hS hi.honest hapart h.upstream
  down :=
    step_down abi i (headerRead_of_direct abi h.upstream.port h.upstream.direct i) h.early h.down
  early := step_early abi s i h.early
  numbers := step_numbers abi h.upstream.port (hi.numbered hS) h.numbers

theorem newSession_direct (S : Bytes) (e : SynEnv) {p : Packet} (hport : ¬ proxied e.dest)
    (hsyn : p.syn = true) (hlen : p.datalen = 0) : Direct S p.seq (newSession e p) [] where
  upstream := newSession_upstream S e p hport hsyn fun h => absurd hlen h
  down := newSession_down e p
  early := newSession_early e p
  numbers := by simp [newSession_forward, hlen]

theorem direct_run (abi : Abi) {S : Bytes} (hS : S.length + 2 < 2 ^ 32) (e : SynEnv) {p : Packet}
    (hport : ¬ proxied e.dest) (hsyn : p.syn = true) (hlen : p.datalen = 0) {is : List Input}
    (his : Along (step abi) (fun _ i => Waits S p.seq i) (newSession e p) is) :
    Direct S p.seq (run (step abi) (newSession e p) is).1 (run (step abi) (newSession e p) is).2 :=
  run_invariant (step abi) _ (Direct S p.seq) (fun _ _ _ hs hi => step_direct abi hS hi hs) is _
    (newSession_direct S e hport hsyn hlen) his

theorem run_dest (abi : Abi) (s : Session) (is : List Input) :
    (run (step abi) s is).1.dest = s.dest := by
  have hfixed := run_invariant (step abi) (fun _ _ => True) (fun t _ => t.fixed = s.fixed)
    (fun t _ i ht _ => (step_fixed abi t i).trans ht) is s rfl
      (along_of_forall _ _ _ fun _ _ => trivial)
  exact congrArg (fun f => f.2.2.2.2.1) hfixed

end

end PdaNetClient.Tcp

namespace PdaNetClient.Table

open Runs Sweep Datagram Interleaving Numbered

/-! ## In the loop -/

section

variable {S : Bytes} {p : TcpPacket} {n : Nat}

/-- The packets of the flow of `p` are those of a client that sends the stream `S`, and the
sends of the session `n` take a count. -/
def ClientSends (S : Bytes) (p : TcpPacket) (n : Nat) : Input → Prop
  | .packet e (.tcp q) =>
    (Packet.tcp q).key = (Packet.tcp p).key → Tcp.Waits S p.segment.seq (.packet e.tcp q.segment)
  | .socket name _ t => name = n → Tcp.Waits S p.segment.seq (.socket t)
  | _ => True

/-- What the session with the key of `p` is told. -/
def ClientTold (S : Bytes) (p : TcpPacket) (s : Session) (k : Told) : Prop :=
  s.key = (Packet.tcp p).key → ∀ i ∈ k.tcpOf, Tcp.Waits S p.segment.seq i

theorem told_client {c : Config} {l : Loop} {s : Session} {i : Input} (hi : ClientSends S p n i) :
    ∀ k ∈ told c n l s i, ClientTold S p s k := by
  intro k hk hkey j hj
  cases s with
  | icmp s => cases hkey
  | udp s => cases hkey
  | tcp s =>
    cases i with
    | packet e q =>
      cases q with
      | icmp q | udp q => cases hk
      | tcp q =>
        by_cases hcond : (passes c l (.tcp q) && matchesTcp q ⟨n, .tcp s⟩) = true
        · rw [told, if_pos hcond, List.mem_singleton] at hk
          subst hk
          cases hj
          have hmatch : matchesTcp q ⟨n, .tcp s⟩ = true := (Bool.and_eq_true _ _ ▸ hcond).2
          have hq : (Session.tcp s).key = (Packet.tcp q).key :=
            Option.some.inj ((matchesTcp_iff_tcpKey q _).mp hmatch)
          exact hi (hq.symm.trans hkey)
        · rw [told, if_neg hcond] at hk
          cases hk
    | socket name e t =>
      by_cases hcond : name = n ∧ 0 ≤ s.socket
      · rw [told, if_pos hcond, List.mem_singleton] at hk
        subst hk
        cases hj
        exact hi hcond.1
      · rw [told, if_neg hcond] at hk
        cases hk
    | monitor e =>
      obtain rfl := List.mem_singleton.mp hk
      cases hj
      trivial
    | check e =>
      obtain rfl := List.mem_singleton.mp hk
      cases hj
      trivial
    | allowed e => cases hk
    | clear => cases hk

theorem key_of_fixed {s t : Tcp.Session} (h : s.fixed = t.fixed) :
    (Session.tcp s).key = (Session.tcp t).key := by
  simp only [Tcp.Session.fixed, Prod.mk.injEq] at h
  obtain ⟨hversion, hsaddr, hsource, hdaddr, hdest, -⟩ := h
  simp only [Session.key, hversion, hsaddr, hsource, hdaddr, hdest]

end

def Said.tcpOf : Said → Option Tcp.Out
  | .tcp o => some o
  | _ => none

/-- What the TCP session that `p` creates hears in a run. -/
def tcpHeard (c : Config) (l : Loop) (n : Nat) (before : List Input) (e : PacketEnv) (p : TcpPacket)
    (after : List Input) :
    List Tcp.Input :=
  ((sessionPart c n).heard (step c) (bornIn c l before e (.tcp p)) after).filterMap Told.tcpOf

/-- What a session to the port `dest` with the outputs `said` has relayed, where `left` is what
the table holds of it: the socket took a prefix of the stream `S` of the client, and the client
was written a prefix of the remote stream, in order; all of it, as long as the session is open. -/
structure TcpRelayed (S : Bytes) (dest : Nat) (left : Option Session)
    (said : List Tcp.Out) : Prop where
  taken : Tcp.accepted said <+: S
  kept : Tcp.payload said <+: Tcp.stream dest said
  complete : ∀ s, left = some (.tcp s) → ¬ s.state.closed → Tcp.payload said = Tcp.stream dest said
  ordered : ∃ first, Contiguous first (Tcp.segments said)
  stops : Tcp.StopsOnFailure said

section

variable {c : Config} {l : Loop} {is before after : List Input} {n fd : Nat} {e : PacketEnv}
    {p : TcpPacket}

/-- A TCP session that is created in a run does what its machine does with what it hears. -/
theorem run_tcp_born (h : Apart l) (hborn : Born c l is n before e (.tcp p) fd after)
    (his : ∀ i ∈ is, i.looping) :
    ((sessionPart c n).outs (run (step c) l is).2).filterMap Said.tcpOf =
        (run (Tcp.step c.abi) (Tcp.newSession (tcpSyn e p fd) p.segment)
          (tcpHeard c l n before e p after)).2 ∧
      ∀ s, (sessionPart c n).view (run (step c) l is).1 = some (.tcp s) →
        s = (run (Tcp.step c.abi) (Tcp.newSession (tcpSyn e p fd) p.segment)
          (tcpHeard c l n before e p after)).1 := by
  have hfollows : Follows c n (run (step c) l is) (.tcp (Tcp.newSession (tcpSyn e p fd) p.segment))
      ((sessionPart c n).heard (step c) (bornIn c l before e (.tcp p)) after) :=
    run_born h hborn his
  obtain ⟨houts, hleft⟩ := hfollows
  rw [run_tcp] at houts hleft
  constructor
  · rw [houts, List.filterMap_map]
    exact List.filterMap_some
  · exact fun s hs => Session.tcp.inj (hleft (.tcp s) hs)

/-- All packets that a session hears are those of its client. -/
theorem tcpHeard_waits (h : Apart l) (hborn : Born c l is n before e (.tcp p) fd after)
    (his : ∀ i ∈ is, i.looping) {S : Bytes} (hclient : ∀ i ∈ after, ClientSends S p n i) :
    Along (Tcp.step c.abi) (fun _ i => Tcp.Waits S p.segment.seq i)
    (Tcp.newSession (tcpSyn e p fd) p.segment)
      (tcpHeard c l n before e p after) := by
  have hafter : ∀ i ∈ after, i.looping := fun i hi => his i (by simp [hborn.whole, hi])
  have hheard := along_heard (bornIn_apart h) hborn.view hafter (along_of_forall _ _ _ hclient)
    fun l s i _ _ hi => told_client hi
  have halong :=
    along_embedded (Session.step c.abi) (Tcp.step c.abi) Session.tcp Said.tcp Told.tcpOf ?_ ?_
    (Q := fun s i => (Session.tcp s).key = (Packet.tcp p).key → Tcp.Waits S p.segment.seq i)
      ?_ _ _ hheard
  · refine along_of_invariant (Tcp.step c.abi) _ _
      (fun s => s.fixed = (Tcp.newSession (tcpSyn e p fd) p.segment).fixed) ?_ _ _
      rfl halong
    exact fun s i hs hi => ⟨hi (key_of_fixed hs), (Tcp.step_fixed c.abi s i).trans hs⟩
  · intro s k i hk
    cases k <;> cases hk
    rfl
  · intro s k hk
    cases k <;> first | rfl | cases hk
  · exact fun s k i hk hQ hkey => hQ hkey i hk

/-- The two streams of a session, from what holds at the end of its own run. -/
theorem relayed_of_run (h : Apart l) (hborn : Born c l is n before e (.tcp p) fd after)
    (his : ∀ i ∈ is, i.looping) {S : Bytes} {t : Tcp.Session} {said : List Tcp.Out}
    (hrun : run (Tcp.step c.abi) (Tcp.newSession (tcpSyn e p fd) p.segment)
      (tcpHeard c l n before e p after) = (t, said))
    (htaken : Tcp.accepted said <+: S) (hdown : Tcp.Down t said) :
    TcpRelayed S p.dest ((sessionPart c n).view (run (step c) l is).1)
      (((sessionPart c n).outs (run (step c) l is).2).filterMap Said.tcpOf) := by
  obtain ⟨houts, hleft⟩ := run_tcp_born h hborn his
  have hdest : t.dest = p.dest := by
    have hsame := Tcp.run_dest c.abi (Tcp.newSession (tcpSyn e p fd) p.segment)
      (tcpHeard c l n before e p after)
    rw [hrun] at hsame
    exact hsame
  rw [hrun] at houts hleft
  rw [houts, ← hdest]
  refine ⟨htaken, hdown.kept, fun s hs hopen => ?_, hdown.ordered, hdown.stops⟩
  obtain rfl := hleft s hs
  exact hdown.complete hopen

end

/-- In every run of the loop, a TCP session that is not relayed through the proxy carries both
streams in order, whatever the other sessions do: if the packets of its flow agree with one
stream, without data on a SYN, and none of its sends fails. -/
theorem tcp_relayed (c : Config) (past is : List Input) (his : ∀ i ∈ is, i.looping) {n fd : Nat}
    {before after : List Input} {e : PacketEnv} {p : TcpPacket}
    (hborn : Born c (run (step c) empty past).1 is n before e (.tcp p) fd after)
    (hport : ¬ Tcp.proxied p.dest) (hlen : p.segment.datalen = 0) (S : Bytes)
    (hS : S.length + 2 < 2 ^ 32) (hclient : ∀ i ∈ after, ClientSends S p n i) :
    let r := run (step c) (run (step c) empty past).1 is
    TcpRelayed S p.dest ((sessionPart c n).view r.1)
      (((sessionPart c n).outs r.2).filterMap Said.tcpOf) := by
  have hl := run_apart c past
  have hdirect := Tcp.direct_run c.abi hS (tcpSyn e p fd) hport hborn.creates.2.2.1.2 hlen
    (tcpHeard_waits hl hborn his hclient)
  exact relayed_of_run hl hborn his rfl hdirect.upstream.taken hdirect.down

/-- Behind the SYN to port 22: the socket connects, another flow starts, and each side sends two
bytes. -/
def behindSyn : List Input :=
  [.socket 0 (datagramEvent []) Tcp.writable,
    .packet (plainEnv 4) (udpPacket client 40001 (server 34) 9999 [1]),
    .packet (plainEnv 5) (tcpPacket 22 (Tcp.plainPacket 1001 5001 (ascii "AB"))),
    .socket 0 (datagramEvent []) Tcp.writable,
    .socket 0 (datagramEvent []) (Tcp.readable (ascii "CD"))]

theorem tcp_relayed_flow :
    let is := Input.packet (plainEnv 3) (tcpPacket 22 (Tcp.synPacket [])) :: behindSyn
    let r := run (step (plainConfig 100 false)) empty is
    TcpRelayed (ascii "AB") 22 ((sessionPart (plainConfig 100 false) 0).view r.1)
        (((sessionPart (plainConfig 100 false) 0).outs r.2).filterMap Said.tcpOf) ∧
      Tcp.accepted (((sessionPart (plainConfig 100 false) 0).outs r.2).filterMap Said.tcpOf) =
        ascii "AB" ∧
      Tcp.payload (((sessionPart (plainConfig 100 false) 0).outs r.2).filterMap Said.tcpOf) =
        ascii "CD" := by
  refine ⟨?_, by decide +kernel, by decide +kernel⟩
  have hborn : Born (plainConfig 100 false) empty
    (Input.packet (plainEnv 3) (tcpPacket 22 (Tcp.synPacket [])) :: behindSyn) 0
      [] (plainEnv 3) (tcpPacket 22 (Tcp.synPacket [])) 3 behindSyn :=
      ⟨rfl, ⟨by decide, by decide, ⟨rfl, rfl⟩, rfl⟩, rfl⟩
  have hwrite :
    ClientSends (ascii "AB") ⟨4, client, 40000, server 34, 22, 1400, 0, Tcp.synPacket []⟩ 0
      (.socket 0 (datagramEvent []) Tcp.writable) := fun _ _ => ⟨65536, rfl⟩
  refine tcp_relayed (plainConfig 100 false) [] _ (by decide) hborn (by decide) rfl (ascii "AB")
    (by decide) ?_
  simp only [behindSyn, List.forall_mem_cons, List.not_mem_nil, false_imp_iff,
    implies_true, and_true]
  refine ⟨hwrite, trivial, fun _ => ⟨fun _ => ?_, ?_⟩, hwrite, ?_⟩
  · exact .of_initial List.prefix_rfl
  · exact fun hsyn => absurd hsyn (by decide)
  · exact fun _ _ => ⟨65536, rfl⟩

end PdaNetClient.Table
