import PdaNetClient.IcmpChecksum
import PdaNetClient.UdpRelay

/-!
# What an ICMP session relays

An ICMP session keeps its addresses, its identifier and its socket as long as it is in the
table. The echo requests that find it go out on the socket, and what is read there comes to
the client, as packets with the identifier of the first of these requests.
-/
namespace PdaNetClient.Icmp

open Runs Datagram Table Interleaving
open Http (Memory)

set_option autoImplicit false

/-! ## One session -/

/-- What `check_icmp_socket` reads. -/
def received (e : SocketEnv) : Option Bytes :=
  if e.ev.err then none
  else if e.ev.inn then
    if readFails e.recv then none
    else match e.recv with
      | .fail _ => none
      | .ok data => some data
  else none

theorem replyPacket_received (e : SocketEnv) (s : IcmpSession) :
    replyPacket e s = (received e).map fun data => writeIcmp s (restoreId s data) := by
  unfold replyPacket received
  split
  · rfl
  · split
    · split
      · rfl
      · cases e.recv <;> rfl
    · rfl

/-- The packets that a step hands to tun, with what becomes of them. -/
def icmpWrites (s : IcmpSession) : IcmpInput → List (Bytes × Bool)
  | .socket e => if s.socket < 0 then [] else (replyPacket e s).toList.map (·, e.tun)
  | _ => []

/-- The session with the packets that it writes as outputs. -/
def echoes : Machine IcmpSession IcmpInput (Bytes × Bool) :=
  fun s i => ((icmpStep s i).1, icmpWrites s i)

def request : IcmpInput → List IcmpPacket
  | .packet _ _ p => [p]
  | _ => []

def reply : IcmpInput → List Bytes
  | .socket e => (received e).toList
  | _ => []

/-- An input that reaches a session which is in the table, with the origin `o`. -/
def Reaches (o : Origin) (s : IcmpSession) (i : IcmpInput) : Prop :=
  originOf s = o ∧ ∀ p ∈ request i, Addressed o p ∧ p.type = icmpEcho

theorem writeIcmp_of_origin {s t : IcmpSession} (h : originOf t = originOf s) (data : Bytes) :
    writeIcmp t (restoreId t data) = writeIcmp s (restoreId s data) := by
  obtain ⟨_, version, saddr, daddr, id, _, _⟩ := s
  obtain ⟨_, version', saddr', daddr', id', _, _⟩ := t
  simp only [originOf, Origin.mk.injEq] at h
  obtain ⟨rfl, rfl, rfl, rfl, -⟩ := h
  rfl

theorem icmpStep_writes (s : IcmpSession) (i : IcmpInput) :
    (icmpStep s i).2.filterMap Out.tunOk = (icmpWrites s i).map Prod.snd := by
  cases i with
  | packet now send p => rfl
  | socket e =>
    simp only [icmpStep, icmpWrites]
    split
    · rfl
    · rw [checkIcmpSocket_writes]
      cases replyPacket e s <;> rfl
  | check e =>
    simp only [icmpStep, icmpWrites, checkIcmpSession]
    split <;> rfl

theorem icmpStep_sent (s : IcmpSession) (i : IcmpInput) :
    (icmpStep s i).2.filterMap Out.sent = (request i).map fun p => (s.socket, p.message) := by
  cases i with
  | packet now send p => rfl
  | socket e =>
    simp only [icmpStep, request]
    split
    · rfl
    · rw [checkIcmpSocket_writes]
      cases replyPacket e s <;> rfl
  | check e =>
    simp only [icmpStep, request, checkIcmpSession]
    split <;> rfl

theorem run_echoes_writes (s : IcmpSession) (us : List IcmpInput) :
    (run icmpStep s us).2.filterMap Out.tunOk = (run echoes s us).2.map Prod.snd := by
  induction us generalizing s with
  | nil => rfl
  | cons i us ih =>
    rw [run_cons, run_cons, List.filterMap_append, List.map_append, ih, icmpStep_writes]
    rfl

/-- What a session `s` relays of the inputs `us`, where its outputs are `said`. Every request
is one between its addresses; a reply is restored for those that have its identifier. -/
structure Echoed (s : IcmpSession) (us : List IcmpInput) (said : List Datagram.Out) : Prop where
  sent : said.filterMap Out.sent = (us.flatMap request).map fun p => (s.socket, p.message)
  written : said.filterMap Out.tunOk = (run echoes s us).2.map Prod.snd
  answered : (run echoes s us).2.map Prod.fst =
    (us.flatMap reply).map fun data => writeIcmp s (restoreId s data)
  requests : ∀ p ∈ us.flatMap request, Addressed (originOf s) p ∧ p.type = icmpEcho
  restored : ∀ data ∈ us.flatMap reply, 8 ≤ data.length → ∀ p ∈ us.flatMap request,
    Restores p (writeIcmp s (restoreId s data)) ↔ s.id = p.id
  right : (s.version = 4 ∨ s.version = 6) →
    ∀ data ∈ us.flatMap reply, data.length ≤ icmpMaxmsg s.version →
    ∀ after : Memory, ReplyRight s.version (writeIcmp s (restoreId s data)) after ↔
    4 ≤ data.length ∧ s.version = 4

theorem icmp_requests {s : IcmpSession} {us : List IcmpInput}
    (hus : Along icmpStep (Reaches (originOf s)) s us) :
    ∀ p ∈ us.flatMap request, Addressed (originOf s) p ∧ p.type = icmpEcho := by
  intro p hp
  obtain ⟨i, hi, hpi⟩ := List.mem_flatMap.mp hp
  exact forall_of_along icmpStep (fun _ _ h => h.2) s us hus i hi p hpi

theorem icmp_echoes (s : IcmpSession) (hopen : 0 ≤ s.socket) (us : List IcmpInput)
    (hus : Along icmpStep (Reaches (originOf s)) s us) : Echoed s us (run icmpStep s us).2 where
  sent := by
    rw [List.map_flatMap]
    refine filterMap_run icmpStep _ Out.sent _ ?_ s us hus
    intro t i hi
    have hsocket : t.socket = s.socket := congrArg Origin.socket hi.1
    rw [icmpStep_sent, hsocket]
  written := run_echoes_writes s us
  answered := by
    have halong : Along echoes (Reaches (originOf s)) s us :=
      (along_proj icmpStep echoes id (fun _ _ => rfl) _ s us).mpr hus
    have hfst : (run echoes s us).2.map Prod.fst =
        (run echoes s us).2.filterMap fun w => some w.1 :=
      (List.filterMap_eq_map (f := Prod.fst)).symm ▸ rfl
    rw [hfst, List.map_flatMap]
    refine filterMap_run echoes _ _ _ ?_ s us halong
    intro t i hi
    have hsocket : t.socket = s.socket := congrArg Origin.socket hi.1
    cases i with
    | packet now send p => rfl
    | check e => rfl
    | socket e =>
      have hclosed : ¬ t.socket < 0 := by omega
      simp only [echoes, icmpWrites, if_neg hclosed, reply, replyPacket_received]
      cases received e with
      | none => rfl
      | some data => simp [writeIcmp_of_origin hi.1]
  requests := icmp_requests hus
  restored := by
    intro data _ hdata p hp
    obtain ⟨hversion, hsaddr, hdaddr⟩ := (icmp_requests hus p hp).1
    exact restores_iff hdata hversion hsaddr hdaddr
  right := fun hversion _ _ hdata after => replyRight_iff after hversion hdata

/-! ## In the loop -/

/-- In its table, an ICMP session keeps its origin. -/
theorem along_origin {c : Config} {l : Loop} {n : Nat} {o : Origin} (h : Apart l) (hn : n < l.next)
    (ho : ∀ x ∈ l.table, x.name = n → origin x.session = some o) (is : List Input) :
    Along (step c) (fun l _ => ∀ s, (sessionPart c n).view l = some s →
      origin s = some o) l is := by
  refine along_of_invariant (step c) (fun _ _ => True) _
    (fun l => Apart l ∧ n < l.next ∧ ∀ x ∈ l.table, x.name = n → origin x.session = some o) ?_ is
      l ⟨h, hn, ho⟩
    (along_of_forall _ _ _ fun _ _ => trivial)
  rintro l i ⟨hl, hn, ho⟩ -
  refine ⟨fun s hs => ?_, step_apart c hl i, Nat.lt_of_lt_of_le hn (step_next c l i),
    fun y hy hname => ?_⟩
  · obtain ⟨x, hx, rfl⟩ := Option.map_eq_some_iff.mp hs
    exact ho x (List.mem_of_find?_eq_some hx) (by simpa using List.find?_some hx)
  · rcases step_stems c l i y hy with ⟨x, hx, hyx, horigin⟩ | ⟨hnext, -⟩
    · exact horigin.trans (ho x hx (hyx.symm.trans hname))
    · omega

/-- What an ICMP session with the origin `o` is told reaches it. -/
def ReachesIn (o : Origin) : Session → Told → Prop
  | .icmp s, .icmp i => Reaches o s i
  | _, _ => True

theorem told_reaches {c : Config} {l : Loop} (h : Apart l) {n : Nat} {o : Origin} {s : Session}
    {i : Input} (hs : (sessionPart c n).view l = some s) (ho : origin s = some o) :
    ∀ k ∈ told c n l s i, ReachesIn o s k := by
  intro k hk
  cases s with
  | udp s => trivial
  | tcp s => trivial
  | icmp s =>
    have hso : originOf s = o := Option.some.inj ho
    cases i with
    | packet e p =>
      cases p with
      | udp p | tcp p => cases hk
      | icmp p =>
        by_cases hcond : (passes c l (.icmp p) && findsName l (.icmp p) n) = true
        · rw [told, if_pos hcond, List.mem_singleton] at hk
          subst hk
          obtain ⟨hpasses, hfinds⟩ := (Bool.and_eq_true _ _).mp hcond
          obtain ⟨x, hx, hxs⟩ := Option.map_eq_some_iff.mp hs
          have hname : x.name = n := by simpa using List.find?_some hx
          rw [← hname] at hfinds
          have hfound := (findsName_iff h.named (List.mem_of_find?_eq_some hx) (.icmp p)).mp hfinds
          refine ⟨hso, fun q hq => ?_⟩
          obtain rfl := List.mem_singleton.mp hq
          refine ⟨addressed_of_matches (List.find?_some hfound) (hxs ▸ ho), ?_⟩
          simp only [passes, Packet.handled, Bool.and_eq_true, decide_eq_true_eq] at hpasses
          exact hpasses.2
        · rw [told, if_neg hcond] at hk
          cases hk
    | check e =>
      obtain rfl := List.mem_singleton.mp hk
      exact ⟨hso, fun q hq => by cases hq⟩
    | socket name e t =>
      by_cases hcond : name = n
      · rw [told, if_pos hcond, List.mem_singleton] at hk
        subst hk
        exact ⟨hso, fun q hq => by cases hq⟩
      · rw [told, if_neg hcond] at hk
        cases hk
    | monitor e => cases hk
    | allowed e => cases hk
    | clear => cases hk

/-- What the ICMP session that `p` creates hears in a run, its first request included. -/
def icmpHeard (c : Config) (l : Loop) (n : Nat) (before : List Input) (e : PacketEnv)
    (p : IcmpPacket) (after : List Input) :
    List IcmpInput :=
  .packet e.now e.send p ::
    ((sessionPart c n).heard (step c) (bornIn c l before e (.icmp p)) after).filterMap Told.icmpOf

section

variable {c : Config} {l : Loop} {is before after : List Input} {n fd : Nat} {e : PacketEnv}
    {p : IcmpPacket}

theorem origin_of_view (h : Apart l) {s : Session} (hs : (sessionPart c n).view l = some s) :
    ∀ x ∈ l.table, x.name = n → origin x.session = origin s := by
  intro x hx hname
  obtain ⟨y, hy, rfl⟩ := Option.map_eq_some_iff.mp hs
  have hyname : y.name = n := by simpa using List.find?_some hy
  rw [← h.named.eq hx (List.mem_of_find?_eq_some hy) (hyname.trans hname.symm)]

/-- The request that creates a session passes, and reaches it. -/
theorem born_reaches (hborn : Born c l is n before e (.icmp p) fd after) :
    Reaches (originOf (newIcmpSession e.now fd p)) (newIcmpSession e.now fd p)
    (.packet e.now e.send p) := by
  refine ⟨rfl, fun q hq => ?_⟩
  obtain rfl := List.mem_singleton.mp hq
  have hpasses := hborn.creates.1
  simp only [passes, Packet.handled, Bool.and_eq_true, decide_eq_true_eq] at hpasses
  exact ⟨⟨rfl, rfl, rfl⟩, hpasses.2⟩

/-- All requests that a session hears are for its addresses, and keep its origin. -/
theorem icmpHeard_reaches (h : Apart l) (hborn : Born c l is n before e (.icmp p) fd after)
    (his : ∀ i ∈ is, i.looping) :
    Along icmpStep (Reaches (originOf (newIcmpSession e.now fd p))) (newIcmpSession e.now fd p)
      (icmpHeard c l n before e p after) := by
  have hafter : ∀ i ∈ after, i.looping := fun i hi => his i (by simp [hborn.whole, hi])
  have hcreated : Apart (bornIn c l before e (.icmp p)) := bornIn_apart h
  have hview : (sessionPart c n).view (bornIn c l before e (.icmp p)) =
      some (.icmp (forwardIcmp e.now e.send p (newIcmpSession e.now fd p)).1) := hborn.view
  have hlater := along_heard hcreated hview hafter
    (along_origin hcreated (lt_next_of_view hcreated.named hview)
      (origin_of_view hcreated hview) after)
    fun l s i hl hs ho => told_reaches hl hs (ho s hs)
  refine ⟨born_reaches hborn,
    along_embedded (Session.step c.abi) icmpStep Session.icmp Said.datagram Told.icmpOf
      ?_ ?_ ?_ _ _ hlater⟩
  · intro s k i hk
    cases k <;> cases hk
    rfl
  · intro s k hk
    cases k <;> first | rfl | cases hk
  · intro s k i hk hQ
    cases k <;> cases hk
    exact hQ

/-- An ICMP session that is created in a run does what its machine does with what it hears. -/
theorem run_icmp_born (h : Apart l) (hborn : Born c l is n before e (.icmp p) fd after)
    (his : ∀ i ∈ is, i.looping) :
    ((sessionPart c n).outs (run (step c) l is).2).filterMap Said.datagramOf =
      (run icmpStep (newIcmpSession e.now fd p) (icmpHeard c l n before e p after)).2 := by
  have hfollows := (run_born h hborn his).outs
  rw [hfollows]
  show (run (Session.step c.abi) (.icmp (newIcmpSession e.now fd p)) _).2.filterMap
    Said.datagramOf = _
  rw [run_icmp, List.filterMap_map]
  exact List.filterMap_some

end

/-- In every run of the loop, the echo requests that find an ICMP session go out on its socket,
each once and in order, and what is read there comes to the client with the identifier of the
first of them. -/
theorem icmp_relayed (c : Config) (past is : List Input) (his : ∀ i ∈ is, i.looping) {n fd : Nat}
    {before after : List Input} {e : PacketEnv} {p : IcmpPacket}
    (hborn : Born c (run (step c) empty past).1 is n before e (.icmp p) fd after) :
    Echoed (newIcmpSession e.now fd p) (icmpHeard c (run (step c) empty past).1 n before e p after)
      (((sessionPart c n).outs (run (step c) (run (step c) empty past).1 is).2).filterMap
        Said.datagramOf) := by
  have hl := run_apart c past
  rw [run_icmp_born hl hborn his]
  exact icmp_echoes (newIcmpSession e.now fd p) (Int.natCast_nonneg fd) _
    (icmpHeard_reaches hl hborn his)

/-- Behind a request: that of a second pinger, and a reply. -/
def behindPing : List Input :=
  [.packet (plainEnv 4) (.icmp (ping 2 1)),
    .socket 0 (datagramEvent [0, 0, 0, 0, 0x39, 0x30, 0, 1]) Tcp.writable]

theorem icmp_relayed_two :
    Echoed (newIcmpSession 0 3 (ping 1 1))
      (icmpHeard (plainConfig 100 false) empty 0 [] (plainEnv 3) (ping 1 1) behindPing)
      (((sessionPart (plainConfig 100 false) 0).outs
        (run (step (plainConfig 100 false)) empty
          (.packet (plainEnv 3) (.icmp (ping 1 1)) :: behindPing)).2).filterMap
        Said.datagramOf) := by
  have hborn : Born (plainConfig 100 false) empty
    (.packet (plainEnv 3) (.icmp (ping 1 1)) :: behindPing) 0 [] (plainEnv 3)
      (.icmp (ping 1 1)) 3 behindPing := ⟨rfl, ⟨by decide, by decide, rfl, rfl⟩, rfl⟩
  exact icmp_relayed (plainConfig 100 false) [] _ (by decide) hborn

end PdaNetClient.Icmp
