import PdaNetClient.DnsSafety
import PdaNetClient.SessionRuns

/-!
# The calls of `dns.c`

`handle_udp` hands what goes to port 53 to `get_dns_query` before it does anything else with
it, and `check_udp_socket` hands what comes from there to `parse_dns_response` before it
writes it to tun. What the parsers find is only logged, so the steps of the loop are taken
without them; but a name can keep a parser for ever, and the loop with it. Here a run goes on
only when its calls return.
-/
namespace PdaNetClient.Dns

open Runs Walks Table
open Http (Memory memoryOf)
open Datagram (UdpPacket answer)

set_option autoImplicit false

/-! ## Calls -/

inductive Call where
  | query (data : Bytes)
  | response (data : Bytes)
  deriving DecidableEq, Repr

/-- The memory behind the message, and the buffers of the caller. -/
structure Surroundings where
  after : Memory
  name : Buffer
  qname : Buffer

/-- The call returns within as many turns of each of its loops. -/
def Call.returns (turns : Nat) (m : Surroundings) : Call → Bool
  | .query data => ((getDnsQuery data.length turns m.qname).value (memoryOf data m.after)).isSome
  | .response data =>
    ((parseDnsResponse data.length turns m.name m.qname).value (memoryOf data m.after)).isSome

/-- The names and addresses that the parser comes to are safe. -/
def Call.Safe (after : Memory) : Call → Prop
  | .query data => IsQuery (memoryOf data after) data.length →
    NameSafe (memoryOf data after) data.length (BitVec.ofNat 16 sizeofDnsHeader)
  | .response data => IsResponse (memoryOf data after) data.length →
      MessageSafe (memoryOf data after) data.length

theorem Call.Safe.returns {m : Surroundings} {call : Call} (h : call.Safe m.after) :
    ∃ enough, ∀ turns, enough ≤ turns → call.returns turns m = true := by
  cases call with
  | query data =>
    by_cases hquery : IsQuery (memoryOf data m.after) data.length
    · obtain ⟨enough, hends⟩ := (h hquery).ends
      refine ⟨enough, fun turns hturns => Option.isSome_iff_ne_none.mpr fun hnone => ?_⟩
      exact hends turns m.qname hturns ((query_name hquery turns m.qname).1.mp hnone)
    · exact ⟨0, fun turns _ => by rw [Call.returns, (query_skipped hquery turns m.qname).1]; rfl⟩
  | response data =>
    by_cases hresponse : IsResponse (memoryOf data m.after) data.length
    · obtain ⟨enough, hends⟩ := run_of_message hresponse (h hresponse)
      exact ⟨enough, fun turns hturns =>
        Option.isSome_iff_ne_none.mpr (hends turns m.name m.qname hturns).1⟩
    · exact ⟨0, fun turns _ => by rw [Call.returns,
        (response_skipped hresponse turns m.name m.qname).1]; rfl⟩

/-- A query whose name comes back to a place keeps the parser for ever. -/
theorem query_kept {m : Surroundings} {data : Bytes}
    (hquery : IsQuery (memoryOf data m.after) data.length)
    (hcycle : ¬ Acyclic (next (memoryOf data m.after) data.length)
      (BitVec.ofNat 16 sizeofDnsHeader, 0))
    (turns : Nat) :
    (Call.query data).returns turns m = false := by
  rw [Call.returns, Option.isSome_eq_false_iff, Option.isNone_iff_eq_none,
    (query_name hquery turns m.qname).1]
  by_contra hend
  obtain ⟨l, hl⟩ := walk_of_loop (getQname_ends_iff.mp hend)
  exact hcycle hl.acyclic

/-! ## The steps that call -/

/-- `handle_udp` gets behind the search: with an active session, or with a new one. -/
def findsActive (e : PacketEnv) (p : UdpPacket) (l : Loop) : Bool :=
  match l.table.find? (matchesUdp p) with
  | some x =>
    match x.session with
    | .udp s => decide (s.state = .active)
    | _ => false
  | none =>
    match e.sock with
    | .ok _ => true
    | _ => false

/-- The call that a step makes. -/
def callOf (c : Config) (l : Loop) : Input → Option Call
  | .packet e (.udp p) =>
    if limited c (.udp p) l = false ∧ findsActive e p l = true ∧
      p.dest = 53 then some (.query p.data) else none
  | .socket name e _ =>
    match (l.find name).map Entry.session with
    | some (.udp s) => if 0 ≤ s.socket ∧ s.dest = 53 then (answer e s).map .response else none
    | _ => none
  | _ => none

/-- A step of the loop, with what its call finds in memory. -/
def dnsStep (c : Config) : Machine Loop (Input × Surroundings) Out := fun l i => step c l i.1

/-- The call of the step returns within as many turns. -/
def stepEnds (c : Config) (turns : Nat) (l : Loop) (i : Input × Surroundings) : Bool :=
  (callOf c l i.1).all (·.returns turns i.2)

/-- The run, if all its calls return within as many turns. -/
def runDns (turns : Nat) (c : Config) (l : Loop) (is : List (Input × Surroundings)) :
    Option (Loop × List Out) :=
  runEnding (dnsStep c) (stepEnds c turns) l is

/-- The messages that a run hands to the parsers are safe. -/
def CallsSafe (c : Config) (l : Loop) (is : List (Input × Surroundings)) : Prop :=
  Along (dnsStep c) (fun l i => ∀ call ∈ callOf c l i.1, call.Safe i.2.after) l is

theorem run_dnsStep (c : Config) (l : Loop) (is : List (Input × Surroundings)) :
    run (dnsStep c) l is = run (step c) l (is.map Prod.fst) := by
  induction is generalizing l with
  | nil => rfl
  | cons i is ih =>
    rw [run_cons, ih, List.map_cons, run_cons]
    rfl

/-- A run whose messages are safe gets through, and is the run without the calls. -/
theorem runDns_of_safe (c : Config) (l : Loop) (is : List (Input × Surroundings))
    (h : CallsSafe c l is) :
    ∃ enough, ∀ turns, enough ≤ turns → runDns turns c l is =
      some (run (step c) l (is.map Prod.fst)) := by
  have hends : Along (dnsStep c) (fun l i => ∃ enough, ∀ turns, enough ≤ turns →
      stepEnds c turns l i = true) l is := by
    refine along_of_invariant (dnsStep c) _ _ (fun _ => True) (fun l i _ hi => ⟨?_, trivial⟩)
      is l trivial h
    cases hcall : callOf c l i.1 with
    | none => exact ⟨0, fun turns _ => by rw [stepEnds, hcall]; rfl⟩
    | some call =>
      obtain ⟨enough, hreturns⟩ := (hi call hcall).returns
      exact ⟨enough, fun turns hturns => by rw [stepEnds, hcall]; exact hreturns turns hturns⟩
  obtain ⟨enough, halong⟩ := along_enough (dnsStep c) (stepEnds c) l is hends
  refine ⟨enough, fun turns hturns => ?_⟩
  rw [runDns, runEnding_of_along _ _ l is (halong turns hturns), run_dnsStep]

/-- Behind a query whose name comes back to a place the loop does nothing any more. -/
theorem runDns_kept (c : Config) (l : Loop) (before : List (Input × Surroundings))
    (i : Input × Surroundings) (after : List (Input × Surroundings)) {data : Bytes}
    (hcall : callOf c (run (step c) l (before.map Prod.fst)).1 i.1 = some (.query data))
    (hquery : IsQuery (memoryOf data i.2.after) data.length)
    (hcycle : ¬ Acyclic (next (memoryOf data i.2.after) data.length)
      (BitVec.ofNat 16 sizeofDnsHeader, 0))
    (turns : Nat) :
    runDns turns c l (before ++ i :: after) = none := by
  refine runEnding_cut (dnsStep c) (stepEnds c turns) l before i after ?_
  rw [run_dnsStep, stepEnds, hcall]
  exact query_kept hquery hcycle turns

example (turns : Nat) : runDns turns (plainConfig 100 true) empty
    [(.packet (plainEnv 3) (udpPacket client 40000 (server 34) 53 selfPointing),
      ⟨fun _ => 0, ⟨fun _ => 0, []⟩, ⟨fun _ => 0, []⟩⟩)] = none := by
  have hcall : callOf (plainConfig 100 true) empty
      (.packet (plainEnv 3) (udpPacket client 40000 (server 34) 53 selfPointing)) =
        some (.query selfPointing) := by
    decide +kernel
  have hquery : IsQuery (memoryOf selfPointing fun _ => 0) selfPointing.length :=
    ⟨by decide +kernel, by decide +kernel, by decide +kernel⟩
  refine runDns_kept (plainConfig 100 true) empty []
    (.packet (plainEnv 3) (udpPacket client 40000 (server 34) 53 selfPointing),
      ⟨fun _ => 0, ⟨fun _ => 0, []⟩, ⟨fun _ => 0, []⟩⟩) [] hcall hquery (fun hacyclic => ?_) turns
  exact hacyclic _ .refl (.single (by unfold Step; decide +kernel))

end PdaNetClient.Dns
