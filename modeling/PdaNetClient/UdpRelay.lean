import PdaNetClient.DhcpReply
import PdaNetClient.DnsCalls
import PdaNetClient.UdpEncode

/-!
# What a UDP session relays

A UDP session with the bytes that it hands to tun. What a client sends to it goes out on
its socket, each datagram once and as it is, until the session is given up; what the server
sends comes to the client as packets from the address that it wrote to. DHCP is answered
in the place of the server.
-/
namespace PdaNetClient.Datagram

open Runs Table
open Tcp (Addr)
open Ip (writeUdp)
open Dhcp (Heap dhcpReply)

set_option autoImplicit false

/-- The answer to a DHCP request, written for the session with the address of the program. -/
def dhcpAnswer (heap : Heap) (p : UdpPacket) (s : UdpSession) : Option Bytes :=
  if dhcpPorts p ∧ isDhcpRequest p.data
    then some (writeUdp { s with saddr := serverAddr s.saddr } (dhcpReply p.data heap))
  else none

/-- The packets that a step hands to tun, with what becomes of them. -/
def udpWrites (heap : Heap) (s : UdpSession) : UdpInput → List (Bytes × Bool)
  | .packet e p => if s.state ≠ .active then [] else (dhcpAnswer heap p s).toList.map (·, e.tun)
  | .socket e => if s.socket < 0 then [] else (answer e s).toList.map fun data =>
      (writeUdp s data, e.tun)
  | .check _ => []

/-- The session with the packets that it writes as outputs. -/
def relay (heap : Heap) : Machine UdpSession UdpInput (Bytes × Bool) :=
  fun s i => ((udpStep s i).1, udpWrites heap s i)

def Out.tunOk : Out → Option Bool
  | .tun written => some written
  | _ => none

def Out.sent : Out → Option (Int × Bytes)
  | .sendto fd data => some (fd, data)
  | _ => none

theorem sendUdp_outs (e : UdpEnv) (p : UdpPacket) (s : UdpSession) :
    (sendUdp e p s).2 = [.sendto s.socket p.data] :=
  rfl

theorem forwardUdp_outs (e : UdpEnv) (p : UdpPacket) (s : UdpSession) :
    (forwardUdp e p s).2 =
      if dhcpPorts p ∧ isDhcp p.data then (if isDhcpRequest p.data then [.tun e.tun] else [])
        else [.sendto s.socket p.data] := by
  unfold forwardUdp checkDhcp isDhcpRequest
  by_cases hports : dhcpPorts p
  · by_cases hdhcp : isDhcp p.data
    · by_cases hop : p.data[0]? = some 1 <;> simp [hports, hdhcp, hop]
    · simp [hports, hdhcp, sendUdp_outs]
  · simp [hports, sendUdp_outs]

theorem checkUdpSocket_outs (e : SocketEnv) (s : UdpSession) :
    (checkUdpSocket e s).2 = (answer e s).toList.map fun _ => .tun e.tun := by
  unfold checkUdpSocket answer
  cases e.ev.err with
  | true => rfl
  | false =>
    cases e.ev.inn with
    | false => rfl
    | true =>
      cases readFails e.recv with
      | true => rfl
      | false => cases e.recv <;> rfl

/-- A step writes to tun where it writes in the loop. -/
theorem udpStep_writes (heap : Heap) (s : UdpSession) (i : UdpInput) :
    (udpStep s i).2.filterMap Out.tunOk = (udpWrites heap s i).map Prod.snd := by
  cases i with
  | packet e p =>
    by_cases hst : s.state = .active
    · simp only [udpStep, udpWrites, hst, ne_eq, not_true, if_false, forwardUdp_outs, dhcpAnswer,
        isDhcpRequest]
      by_cases hports : dhcpPorts p
      · by_cases hdhcp : isDhcp p.data
        · by_cases hop : p.data[0]? = some 1 <;> simp [hports, hdhcp, hop, Out.tunOk]
        · simp [hports, hdhcp, Out.tunOk]
      · simp [hports, Out.tunOk]
    · simp [udpStep, udpWrites, hst]
  | socket e =>
    by_cases hclosed : s.socket < 0
    · simp [udpStep, udpWrites, hclosed]
    · by_cases hread : (!e.ev.err && e.ev.inn) = true
      · simp only [udpStep, udpWrites, hclosed, hread, if_true, if_false, checkUdpSocket_outs]
        cases answer e s <;> simp [Out.tunOk]
      · have hnone : answer e s = none := by
          unfold answer
          cases herr : e.ev.err <;> cases hinn : e.ev.inn <;> simp [herr, hinn] at hread ⊢
        simp [udpStep, udpWrites, hclosed, hread, hnone]
  | check e =>
    show (checkUdpSession e s).2.2.filterMap Out.tunOk = []
    refine checkUdpSession_cases e s ?_ ?_ ?_ ?_
    · exact fun _ => rfl
    · exact fun _ _ => rfl
    · exact fun _ _ => rfl
    · exact fun _ _ _ _ => rfl

/-! ## To the server -/

def Active (s : UdpSession) : Prop := s.state = .active

instance (s : UdpSession) : Decidable (Active s) := inferInstanceAs (Decidable (_ = _))

/-- The datagram of a packet; DHCP is not passed on. -/
def UdpInput.payload : UdpInput → List Bytes
  | .packet _ p => if dhcpPorts p ∧ isDhcp p.data then [] else [p.data]
  | _ => []

theorem checkUdpSession_sent (e : CheckEnv) (s : UdpSession) :
    (checkUdpSession e s).2.2.filterMap Out.sent = [] := by
  refine checkUdpSession_cases e s ?_ ?_ ?_ ?_
  · exact fun _ => rfl
  · exact fun _ _ => rfl
  · exact fun _ _ => rfl
  · exact fun _ _ _ _ => rfl

theorem checkUdpSocket_sent (e : SocketEnv) (s : UdpSession) :
    (checkUdpSocket e s).2.filterMap Out.sent = [] := by
  rw [checkUdpSocket_outs]
  cases answer e s <;> rfl

theorem forwardUdp_sent (e : UdpEnv) (p : UdpPacket) (s : UdpSession) :
    (forwardUdp e p s).2.filterMap Out.sent = (UdpInput.packet e p).payload.map (s.socket, ·) := by
  rw [forwardUdp_outs, UdpInput.payload]
  split
  · split <;> rfl
  · rfl

/-- What a step does to the state of a session and to its socket. -/
theorem udpStep_state (s : UdpSession) (i : UdpInput) :
    ((udpStep s i).1.state = s.state ∨ (udpStep s i).1.state ≠ .active) ∧
      ((udpStep s i).1.socket = s.socket ∨ (udpStep s i).1.socket = -1 ∧
        (udpStep s i).1.state = .closed) := by
  have hleaves : ∀ r : UdpSession × List Out, UdpLeaves s r →
    (r.1.state = s.state ∨ r.1.state ≠ .active) ∧
      (r.1.socket = s.socket ∨ r.1.socket = -1 ∧ r.1.state = .closed) := by
    intro r hr
    refine ⟨?_, .inl hr.socket⟩
    rcases hr.state with hstay | hfinish
    · exact .inl hstay
    · exact .inr (by simp [hfinish])
  cases i with
  | packet e p =>
    by_cases hst : s.state = .active
    · simpa [udpStep, hst] using hleaves _ (forwardUdp_leaves e p s).1
    · simp [udpStep, hst]
  | socket e =>
    by_cases hclosed : s.socket < 0
    · simp [udpStep, hclosed]
    · by_cases hread : (!e.ev.err && e.ev.inn) = true
      · simpa [udpStep, hclosed, hread] using hleaves _ (checkUdpSocket_leaves e s).1
      · simp [udpStep, hclosed, hread]
  | check e =>
    show ((checkUdpSession e s).1.state = _ ∨ _) ∧ _
    refine checkUdpSession_cases (motive := fun r => (r.1.state = s.state ∨ r.1.state ≠ .active) ∧
      (r.1.socket = s.socket ∨ r.1.socket = -1 ∧ r.1.state = .closed)) e s ?_ ?_ ?_ ?_
    · exact fun _ => ⟨.inl rfl, .inl rfl⟩
    · exact fun _ _ => ⟨.inl rfl, .inl rfl⟩
    · exact fun _ _ => ⟨.inl rfl, .inl rfl⟩
    · rintro t _ rfl _
      exact ⟨.inr (by simp), .inr ⟨rfl, rfl⟩⟩

/-- The datagrams of the client go out on the socket as long as the session is active. -/
theorem udp_sent {fd : Int} (s : UdpSession) (hs : Active s → s.socket = fd) (is : List UdpInput) :
    (run udpStep s is).2.filterMap Out.sent = (during udpStep Active s is).flatMap fun i =>
      i.payload.map (fd, ·) := by
  refine filterMap_run_during udpStep (fun _ _ => True) Active (fun s => Active s → s.socket = fd)
    Out.sent _ ?_ ?_ ?_ s is hs
    (along_of_forall _ _ _ fun _ _ => trivial)
  · intro s i hs _ hnext
    obtain ⟨hstate, hsocket⟩ := udpStep_state s i
    have hactive : Active s := by
      rcases hstate with hstay | hleft
      · exact hstay.symm.trans hnext
      · exact absurd hnext hleft
    rcases hsocket with hstay | ⟨-, hclosed⟩
    · exact hstay.trans (hs hactive)
    · cases hclosed.symm.trans hnext
  · intro s i hs _ hactive
    cases i with
    | packet e p =>
      have hstate : s.state = .active := hactive
      rw [← hs hactive, ← forwardUdp_sent]
      simp [udpStep, hstate]
    | socket e =>
      simp only [udpStep]
      split
      · rfl
      · split
        · exact checkUdpSocket_sent e s
        · rfl
    | check e => exact checkUdpSession_sent e s
  · intro s i _ _ hdone
    refine ⟨?_, fun hnext => ?_⟩
    · cases i with
      | packet e p =>
        have hstate : s.state ≠ .active := hdone
        simp [udpStep, hstate]
      | socket e =>
        simp only [udpStep]
        split
        · rfl
        · split
          · exact checkUdpSocket_sent e s
          · rfl
      | check e => exact checkUdpSession_sent e s
    · rcases (udpStep_state s i).1 with hstay | hleft
      · exact hdone (hstay.symm.trans hnext)
      · exact hleft hnext

/-! ## To the client -/

/-- The socket of the session is open. -/
def Open (s : UdpSession) : Prop := 0 ≤ s.socket

instance (s : UdpSession) : Decidable (Open s) := inferInstanceAs (Decidable (_ ≤ _))

/-- What is read of a session when a packet is written for it. -/
def UdpSession.flow (s : UdpSession) : Nat × Nat × Addr × Nat × Addr × Nat :=
  (s.version, s.mss, s.saddr, s.source, s.daddr, s.dest)

theorem writeUdp_of_flow {s t : UdpSession} (h : t.flow = s.flow) (data : Bytes) :
    writeUdp t data = writeUdp s data := by
  obtain ⟨_, version, mss, _, _, saddr, source, daddr, dest, _, _⟩ := s
  obtain ⟨_, version', mss', _, _, saddr', source', daddr', dest', _, _⟩ := t
  simp only [UdpSession.flow, Prod.mk.injEq] at h
  obtain ⟨rfl, rfl, rfl, rfl, rfl, rfl⟩ := h
  rfl

theorem answer_of_flow {s t : UdpSession} (h : t.flow = s.flow) (e : SocketEnv) :
    answer e t = answer e s := by
  have hmss : t.mss = s.mss := congrArg (fun f => f.2.1) h
  simp only [answer, hmss]

/-- Packets have the ports of the session that they find. -/
def Addressed (s : UdpSession) : UdpInput → Prop
  | .packet _ p => p.source = s.source ∧ p.dest = s.dest
  | _ => True

/-- The ports of DHCP, as the session has them. -/
def UdpSession.dhcp (s : UdpSession) : Prop := s.source = 68 ∨ s.dest = 67

theorem udpStep_flow {s : UdpSession} (h : ¬ s.dhcp) (i : UdpInput) (hi : Addressed s i) :
    (udpStep s i).1.flow = s.flow := by
  cases i with
  | packet e p =>
    have hports : ¬ dhcpPorts p := by
      unfold dhcpPorts
      rw [hi.1, hi.2]
      exact h
    simp only [udpStep, forwardUdp, hports, if_false]
    split
    · rfl
    · unfold sendUdp
      simp only
      split
      · rfl
      · split <;> rfl
  | socket e =>
    simp only [udpStep]
    split
    · rfl
    · split
      · unfold checkUdpSocket
        split
        · rfl
        · split
          · split
            · rfl
            · split
              · rfl
              · simp only
                split <;> rfl
          · rfl
      · rfl
  | check e =>
    show (checkUdpSession e s).1.flow = _
    refine checkUdpSession_cases (motive := fun r => r.1.flow = s.flow) e s ?_ ?_ ?_ ?_
    · exact fun _ => rfl
    · exact fun _ _ => rfl
    · exact fun _ _ => rfl
    · rintro t _ rfl _
      rfl

/-- The packet that an event makes the session `s` write. -/
def UdpInput.reply (s : UdpSession) : UdpInput → List Bytes
  | .socket e => (answer e s).toList
  | _ => []

theorem udpWrites_of_flow (heap : Heap) {s t : UdpSession} (h : t.flow = s.flow) (hdhcp : ¬ s.dhcp)
    {i : UdpInput} (hi : Addressed t i) :
    (udpWrites heap t i).map Prod.fst = if Open t then (i.reply s).map (writeUdp s) else [] := by
  cases i with
  | packet e p =>
    have hsource : t.source = s.source := congrArg (fun f => f.2.2.2.1) h
    have hdest : t.dest = s.dest := congrArg (fun f => f.2.2.2.2.2) h
    have hports : ¬ dhcpPorts p := by
      unfold dhcpPorts
      rw [hi.1, hi.2, hsource, hdest]
      exact hdhcp
    simp only [udpWrites, dhcpAnswer, hports, false_and, if_false, UdpInput.reply,
      List.map_nil, ite_self]
    split <;> rfl
  | socket e =>
    by_cases hopen : Open t
    · have hclosed : ¬ t.socket < 0 := Int.not_lt.mpr hopen
      simp only [udpWrites, hclosed, if_false, hopen, if_true, UdpInput.reply, answer_of_flow h]
      cases answer e s with
      | none => rfl
      | some data => simp [writeUdp_of_flow h]
    · have hclosed : t.socket < 0 := Int.not_le.mp hopen
      simp [udpWrites, hclosed, hopen]
  | check e => simp [udpWrites, UdpInput.reply]

/-- The datagrams of the server go to the client as long as the socket is open. -/
theorem udp_answered (heap : Heap) (s : UdpSession) (hdhcp : ¬ s.dhcp) (is : List UdpInput)
    (his : Along udpStep Addressed s is) :
    (run (relay heap) s is).2.map Prod.fst =
      ((during udpStep Open s is).flatMap (UdpInput.reply s)).map (writeUdp s) := by
  have halong : Along (relay heap) Addressed s is :=
    (along_proj udpStep (relay heap) id (fun _ _ => rfl) Addressed s is).mpr his
  have hflow : ∀ (t : UdpSession) (i : UdpInput), t.flow = s.flow → Addressed t i →
      (udpStep t i).1.flow = s.flow := by
    intro t i ht hi
    have hports : t.source = s.source ∧ t.dest = s.dest :=
      ⟨congrArg (fun f => f.2.2.2.1) ht, congrArg (fun f => f.2.2.2.2.2) ht⟩
    have htdhcp : ¬ t.dhcp := by
      unfold UdpSession.dhcp
      rw [hports.1, hports.2]
      exact hdhcp
    exact (udpStep_flow htdhcp i hi).trans ht
  have hfst : ∀ ws : List (Bytes × Bool), ws.map Prod.fst =
      ws.filterMap fun w => some w.1 := fun ws =>
    (List.filterMap_eq_map (f := Prod.fst)).symm ▸ rfl
  have hrun :=
    filterMap_run_during (relay heap) Addressed Open (fun t => t.flow = s.flow) (fun w => some w.1)
    (fun i => (i.reply s).map (writeUdp s)) hflow
    (by
      intro t i ht hi hopen
      rw [← hfst, relay, udpWrites_of_flow heap ht hdhcp hi, if_pos hopen])
    (by
      intro t i ht hi hclosed
      refine ⟨?_, fun hopen => ?_⟩
      · rw [← hfst, relay, udpWrites_of_flow heap ht hdhcp hi, if_neg hclosed]
      · have hopen : 0 ≤ (udpStep t i).1.socket := hopen
        rcases (udpStep_state t i).2 with hstay | ⟨hgone, -⟩
        · rw [hstay] at hopen
          exact hclosed hopen
        · omega)
    s is rfl halong
  rw [hfst, hrun, during_congr udpStep (relay heap) (fun _ _ => rfl), List.map_flatMap]

/-! ## In the loop -/

/-- What a UDP session is told fits it. -/
def AddressedTo : Session → Told → Prop
  | .udp s, .udp i => Addressed s i
  | _, _ => True

theorem told_addressed {c : Config} {l : Loop} (h : Apart l) {n : Nat} {s : Session}
    (hs : (sessionPart c n).view l = some s) (i : Input) :
    ∀ k ∈ told c n l s i, AddressedTo s k := by
  intro k hk
  cases s with
  | icmp s => trivial
  | tcp s => cases k <;> trivial
  | udp s =>
    cases i with
    | packet e p =>
      cases p with
      | icmp p | tcp p => cases hk
      | udp p =>
        by_cases hcond : (passes c l (.udp p) && findsName l (.udp p) n) = true
        · rw [told, if_pos hcond, List.mem_singleton] at hk
          subst hk
          obtain ⟨x, hx, hxs⟩ := Option.map_eq_some_iff.mp hs
          have hmem := List.mem_of_find?_eq_some hx
          have hname : x.name = n := by simpa using List.find?_some hx
          have hfinds : findsName l (.udp p) x.name = true := by
            rw [hname]
            exact (Bool.and_eq_true _ _ ▸ hcond).2
          have hmatch := List.find?_some ((findsName_iff h.named hmem (.udp p)).mp hfinds)
          simp only [Packet.finds, matchesUdp, hxs, decide_eq_true_eq] at hmatch
          exact ⟨hmatch.2.1.symm, hmatch.2.2.1.symm⟩
        · rw [told, if_neg hcond] at hk
          cases hk
    | check e =>
      obtain rfl := List.mem_singleton.mp hk
      trivial
    | socket name e t =>
      by_cases hcond : name = n
      · rw [told, if_pos hcond, List.mem_singleton] at hk
        subst hk
        trivial
      · rw [told, if_neg hcond] at hk
        cases hk
    | monitor e => cases hk
    | allowed e => cases hk
    | clear => cases hk

/-- Whatever a session hears in a run fits it. -/
theorem heard_addressed {c : Config} {l : Loop} (h : Apart l) {n : Nat} {s : Session}
    (hs : (sessionPart c n).view l = some s) {is : List Input} (his : ∀ i ∈ is, i.looping) :
    Along (Session.step c.abi) AddressedTo s ((sessionPart c n).heard (step c) l is) :=
  along_heard h hs his (along_of_forall (P := fun _ => True) _ _ _ fun _ _ => trivial)
    fun _ _ i hl hs _ => told_addressed hl hs i

def Said.datagramOf : Said → Option Out
  | .datagram o => some o
  | _ => none

/-- What the UDP session that `p` creates hears in a run, its first packet included. -/
def udpHeard (c : Config) (l : Loop) (n : Nat) (before : List Input) (e : PacketEnv) (p : UdpPacket)
    (after : List Input) :
    List UdpInput :=
  .packet ⟨e.now, e.send, e.tun⟩ p ::
    ((sessionPart c n).heard (step c) (bornIn c l before e (.udp p)) after).filterMap Told.udpOf

/-- What a session `s` relays of the inputs `us`, where its outputs are `said`. -/
structure Relayed (heap : Heap) (s : UdpSession) (us : List UdpInput) (said : List Out) : Prop where
  sent : said.filterMap Out.sent = (during udpStep Active s us).flatMap fun i =>
    i.payload.map (s.socket, ·)
  written : said.filterMap Out.tunOk = (run (relay heap) s us).2.map Prod.snd
  answered : ¬ s.dhcp →
    (run (relay heap) s us).2.map Prod.fst =
      ((during udpStep Open s us).flatMap (UdpInput.reply s)).map (writeUdp s)
  read : ¬ s.dhcp → Ip.Stands s → ∀ (abi : Abi) (fuel : Nat) (after : Http.Memory),
    (run (relay heap) s us).2.map
      (fun w => (Ip.readUdp abi fuel w.1.length).value (Http.memoryOf w.1 after)) =
      ((during udpStep Open s us).flatMap (UdpInput.reply s)).map fun data =>
        some (Ip.udpDecoded s data)

theorem run_relay_writes (heap : Heap) (s : UdpSession) (us : List UdpInput) :
    (run udpStep s us).2.filterMap Out.tunOk = (run (relay heap) s us).2.map Prod.snd := by
  induction us generalizing s with
  | nil => rfl
  | cons i us ih =>
    rw [run_cons, run_cons, List.filterMap_append, List.map_append, ih, udpStep_writes heap]
    rfl

theorem reply_length {s : UdpSession} {i : UdpInput} {data : Bytes} (h : data ∈ i.reply s) :
    data.length ≤ s.mss := by
  cases i with
  | socket e =>
    simp only [UdpInput.reply, answer, Option.mem_toList] at h
    split at h
    · cases h
    · split at h
      · split at h
        · cases h
        · split at h
          · cases h
          · cases h
            exact (List.length_take_le _ _)
      · cases h
  | packet e p => cases h
  | check e => cases h

theorem udp_relays (heap : Heap) (s : UdpSession) (us : List UdpInput)
    (hus : Along udpStep Addressed s us) :
    Relayed heap s us (run udpStep s us).2 where
  sent := udp_sent s (fun _ => rfl) us
  written := run_relay_writes heap s us
  answered hdhcp := udp_answered heap s hdhcp us hus
  read := by
    intro hdhcp hstands abi fuel after
    have hpackets := udp_answered heap s hdhcp us hus
    have hmap : ∀ ws : List (Bytes × Bool),
        ws.map (fun w => (Ip.readUdp abi fuel w.1.length).value (Http.memoryOf w.1 after)) =
          (ws.map Prod.fst).map fun w =>
            (Ip.readUdp abi fuel w.length).value (Http.memoryOf w after) := by
      intro ws
      rw [List.map_map]
      rfl
    rw [hmap, hpackets, List.map_map]
    apply List.map_congr_left
    intro data hdata
    obtain ⟨i, -, hi⟩ := List.mem_flatMap.mp hdata
    have hroom := Ip.writeUdp_room hstands (reply_length hi)
    exact (Ip.writeUdp_read abi fuel after hstands hroom).1

/-- A UDP session of a run that gets through relays what it hears. -/
theorem run_udp_relayed (c : Config) (past is : List Input) (his : ∀ i ∈ is, i.looping)
    (heap : Heap) {n fd : Nat} {before after : List Input} {e : PacketEnv} {p : UdpPacket}
    (hborn : Born c (run (step c) empty past).1 is n before e (.udp p) fd after) :
    Relayed heap (newUdpSession e.now fd p)
    (udpHeard c (run (step c) empty past).1 n before e p after)
      (((sessionPart c n).outs (run (step c) (run (step c) empty past).1 is).2).filterMap
        Said.datagramOf) := by
  have hl := run_apart c past
  have hafter : ∀ i ∈ after, i.looping := fun i hi => his i (by simp [hborn.whole, hi])
  have hfollows := (run_born hl hborn his).outs
  have hlater := heard_addressed (bornIn_apart hl) hborn.view hafter
  have hall : Along (Session.step c.abi) AddressedTo (.udp (newUdpSession e.now fd p))
      ((opening e (.udp p) fd).2 ++ (sessionPart c n).heard (step c)
        (bornIn c (run (step c) empty past).1 before e (.udp p)) after) := by
    refine ⟨⟨rfl, rfl⟩, ?_⟩
    have hcreated := (created_eq c.abi e n (.udp p) fd).1
    rw [hcreated] at hlater
    exact hlater
  have hus := Interleaving.along_embedded (Session.step c.abi) udpStep Session.udp Said.datagram
    Told.udpOf ?_ ?_
    (Q := Addressed) ?_ _ _ hall
  · have hrelays := udp_relays heap _ _ hus
    rw [hfollows]
    show Relayed _ _ _ ((run (Session.step c.abi) (.udp (newUdpSession e.now fd p)) _).2.filterMap
      Said.datagramOf)
    rw [run_udp, List.filterMap_map]
    have hid : (Said.datagramOf ∘ Said.datagram) = some := rfl
    rw [hid, List.filterMap_some]
    exact hrelays
  · intro s k i hk
    cases k <;> cases hk
    rfl
  · intro s k hk
    cases k <;> first | rfl | cases hk
  · intro s k i hk hQ
    cases k <;> cases hk
    exact hQ

/-- In every run of the loop whose DNS messages are safe, all calls of the parsers return, and a
UDP session relays what it hears: the datagrams of the client go out on its socket, each once
and in order, until the session is given up, and the datagrams of the server come to the client
until the socket is closed. -/
theorem udp_relayed (c : Config) (past : List Input) (is : List (Input × Dns.Surroundings))
    (his : ∀ i ∈ is, i.1.looping) (hsafe : Dns.CallsSafe c (run (step c) empty past).1 is)
    (heap : Heap) {n fd : Nat} {before after : List Input} {e : PacketEnv} {p : UdpPacket}
    (hborn : Born c (run (step c) empty past).1 (is.map Prod.fst) n before e (.udp p) fd after) :
    ∃ turns r, Dns.runDns turns c (run (step c) empty past).1 is = some r ∧
      Relayed heap (newUdpSession e.now fd p)
        (udpHeard c (run (step c) empty past).1 n before e p after)
        (((sessionPart c n).outs r.2).filterMap Said.datagramOf) := by
  obtain ⟨turns, hturns⟩ := Dns.runDns_of_safe c _ is hsafe
  have hlooping : ∀ i ∈ is.map Prod.fst, i.looping := by
    intro i hi
    obtain ⟨j, hj, rfl⟩ := List.mem_map.mp hi
    exact his j hj
  exact ⟨turns, _, hturns turns (Nat.le_refl _), run_udp_relayed c past _ hlooping heap hborn⟩

/-- A query for the name `a`. -/
def queryA : Bytes := [0, 0, 1, 0, 0, 1, 0, 0, 0, 0, 0, 0, 1, 97, 0, 0, 1, 0, 1]

/-- The response to it, without an answer. -/
def responseA : Bytes := [0, 0, 0x80, 0, 0, 1, 0, 0, 0, 0, 0, 0, 1, 97, 0, 0, 1, 0, 1]

def zeros : Dns.Surroundings := ⟨fun _ => 0, ⟨fun _ => 0, []⟩, ⟨fun _ => 0, []⟩⟩

def lookup : UdpPacket := ⟨4, client, 40000, server 34, 53, queryA⟩

/-- A flow to port 53, behind a packet of another one. -/
def lookupRun : List (Input × Dns.Surroundings) :=
  [(.packet (plainEnv 3) (udpPacket client 40001 (server 34) 9999 [2]), zeros),
    (.packet (plainEnv 4) (.udp lookup), zeros),
    (.socket 1 (datagramEvent responseA) Tcp.writable, zeros)]

theorem queryA_safe : Dns.NameSafe (Http.memoryOf queryA fun _ => 0) queryA.length 12 := by
  rw [Dns.nameSafe_iff]
  refine ⟨[(12, 0), (14, 2)], .step (by decide +kernel) (.stop (by decide +kernel)), ?_⟩
  exact List.forall_mem_cons.mpr ⟨⟨by decide +kernel, by decide +kernel⟩,
    List.forall_mem_singleton.mpr ⟨by decide +kernel, by decide +kernel⟩⟩

/-- The query is looked at, and the response, which has no answers, is not. -/
theorem lookupRun_safe : Dns.CallsSafe (plainConfig 100 true) empty lookupRun := by
  refine ⟨fun call hcall => ?_, fun call hcall => ?_, fun call hcall => ?_, trivial⟩
  · have hnone : Dns.callOf (plainConfig 100 true) empty
        (.packet (plainEnv 3) (udpPacket client 40001 (server 34) 9999 [2])) = none := by
      decide +kernel
    exact absurd (hnone.symm.trans hcall) (by simp)
  · have hquery : Dns.callOf (plainConfig 100 true)
        (run (step (plainConfig 100 true)) empty ((lookupRun.take 1).map Prod.fst)).1
          (.packet (plainEnv 4) (.udp lookup)) =
          some (.query queryA) := by decide +kernel
    obtain rfl := Option.some.inj (hquery.symm.trans hcall)
    exact fun _ => queryA_safe
  · have hresponse : Dns.callOf (plainConfig 100 true)
        (run (step (plainConfig 100 true)) empty ((lookupRun.take 2).map Prod.fst)).1
          (.socket 1 (datagramEvent responseA) Tcp.writable) = some (.response responseA) := by
          decide +kernel
    obtain rfl := Option.some.inj (hresponse.symm.trans hcall)
    exact fun h => absurd h.2.2.2 (by decide +kernel)

/-- A flow to port 53 with a query and its response, next to another one. -/
theorem udp_relayed_flow :
    ∃ turns r, Dns.runDns turns (plainConfig 100 true) empty lookupRun = some r ∧
    Relayed (fun _ => 0) (newUdpSession 0 4 lookup)
      (udpHeard (plainConfig 100 true) empty 1 ((lookupRun.take 1).map Prod.fst) (plainEnv 4) lookup
        ((lookupRun.drop 2).map Prod.fst))
      (((sessionPart (plainConfig 100 true) 1).outs r.2).filterMap Said.datagramOf) := by
  have hborn : Born (plainConfig 100 true) empty (lookupRun.map Prod.fst) 1
    ((lookupRun.take 1).map Prod.fst) (plainEnv 4)
      (.udp lookup) 4 ((lookupRun.drop 2).map Prod.fst) :=
    ⟨rfl, ⟨by decide +kernel, by decide +kernel, trivial, rfl⟩, by decide +kernel⟩
  exact udp_relayed (plainConfig 100 true) [] lookupRun (by decide) lookupRun_safe
    (fun _ => 0) hborn

end PdaNetClient.Datagram
