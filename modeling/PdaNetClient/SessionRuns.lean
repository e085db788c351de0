import PdaNetClient.DatagramRuns
import PdaNetClient.Interleaving
import PdaNetClient.SessionKeys

/-!
# Sessions on their own

The sessions share a table, a count, a limit and a tun device. Here each of them is
followed through a run of the event loop: from its creation on it does what the machine of
its protocol does on its own packets, events and passes, whatever happens to the others.
-/
namespace PdaNetClient.Table

open Runs Sweep Datagram Interleaving

set_option autoImplicit false

/-- What happens while the loop runs: the sessions of an earlier run are looked at before
it, and all are cleared behind it. -/
def Input.looping : Input → Prop
  | .allowed _ | .clear => False
  | _ => True

instance : (i : Input) → Decidable i.looping
  | .monitor _ | .check _ | .packet _ _ | .socket _ _ _ => inferInstanceAs (Decidable True)
  | .allowed _ | .clear => inferInstanceAs (Decidable False)

/-! ## What a step does to one entry -/

def stay : Visit Entry Out := fun x => (some x, [])

/-- An ICMP message that is no echo request is dropped. -/
def Packet.handled : Packet → Bool
  | .icmp p => decide (p.type = icmpEcho)
  | _ => true

/-- The packet gets as far as the search for its session. -/
def passes (c : Config) (l : Loop) (p : Packet) : Bool := !limited c p l && p.handled

/-- The part of a step that visits the entries of the table. -/
def stepVisit (c : Config) (l : Loop) : Input → Visit Entry Out
  | .monitor e => monitorVisit c.abi e
  | .check e => checkVisit l.sessions c.maxsessions e
  | .packet e p =>
    if !passes c l p then stay
    else match l.table.find? p.finds with
      | some x => only Entry.name x.name (packetVisit c.abi e p)
      | none => stay
  | .socket name e t => only Entry.name name (socketVisit c.abi e t)
  | .allowed e => allowedVisit e
  | .clear => clearVisit

/-- The step creates a session on the descriptor `fd`. -/
def Creates (c : Config) (l : Loop) (e : PacketEnv) (p : Packet) (fd : Nat) : Prop :=
  passes c l p = true ∧ l.table.find? p.finds = none ∧ p.starts ∧ e.sock = .ok fd

/-- An entry of the table, by its name. -/
def Loop.find (l : Loop) (name : Nat) : Option Entry := l.table.find? (·.name = name)

/-- An output is that of a session, or of none. -/
def Out.name : Out → Option Nat
  | .tcp name _ | .datagram name _ => some name
  | _ => none

/-- A visit that emits nothing in another name. -/
def Labelled (x : Entry) (r : Option Entry × List Out) : Prop := ∀ o ∈ r.2, ∀ n ∈ o.name, n = x.name

section

variable {x : Entry} {l : Loop}

theorem labelled_nil (y : Option Entry) : Labelled x (y, []) := fun _ ho => by cases ho

theorem labelled_tcp (r : Tcp.Session × List Tcp.Out) : Labelled x (tcpVisit x r) := by
  intro o ho n hn
  obtain ⟨o, -, rfl⟩ := List.mem_map.mp ho
  exact (Option.some.inj hn).symm

theorem labelled_udp (r : UdpSession × List Datagram.Out) : Labelled x (udpVisit x r) := by
  intro o ho n hn
  obtain ⟨o, -, rfl⟩ := List.mem_map.mp ho
  exact (Option.some.inj hn).symm

theorem labelled_icmp (r : IcmpSession × List Datagram.Out) : Labelled x (icmpVisit x r) := by
  intro o ho n hn
  obtain ⟨o, -, rfl⟩ := List.mem_map.mp ho
  exact (Option.some.inj hn).symm

theorem Labelled.deleteIf {r : Option Entry × List Out} (h : Labelled x r) (del : Bool) :
    Labelled x (deleteIf del r) := by
  cases del with
  | false => exact h
  | true =>
    intro o ho n hn
    rcases List.mem_append.mp ho with ho | ho
    · exact h o ho n hn
    · cases hr : r.1 with
      | none => simp [hr] at ho
      | some y =>
        have hfreed : o = .freed y.session := by simpa [hr] using ho
        rw [hfreed] at hn
        cases hn

theorem Labelled.only {name : Nat} {f : Visit Entry Out} (h : Labelled x (f x)) :
    Labelled x (only Entry.name name f x) := by
  refine only_cases Entry.name name f x ?_ ?_
  · exact labelled_nil _
  · exact fun _ => h

theorem monitorVisit_labelled (abi : Abi) (e : Nat → Tcp.MonitorEnv) (x : Entry) :
    Labelled x (monitorVisit abi e x) := by
  unfold monitorVisit
  split
  · exact labelled_tcp _
  · exact labelled_nil _

theorem checkVisit_labelled (sessions maxsessions : Nat) (e : Nat → CheckAnswer) (x : Entry) :
    Labelled x (checkVisit sessions maxsessions e x) := by
  unfold checkVisit
  simp only
  split
  · exact (labelled_icmp _).deleteIf _
  · exact (labelled_udp _).deleteIf _
  · exact (labelled_tcp _).deleteIf _

theorem socketVisit_labelled (abi : Abi) (e : SocketEnv) (t : Tcp.SocketEnv) (x : Entry) :
    Labelled x (socketVisit abi e t x) := by
  unfold socketVisit
  split
  · exact labelled_nil _
  · split
    · exact labelled_icmp _
    · split
      · exact labelled_udp _
      · exact labelled_nil _
    · exact labelled_tcp _

theorem packetVisit_labelled (abi : Abi) (e : PacketEnv) (p : Packet) (x : Entry) :
    Labelled x (packetVisit abi e p x) := by
  refine packetVisit_cases abi e p x ?_ ?_ ?_ ?_
  · exact labelled_nil _
  · exact fun _ _ _ _ => labelled_icmp _
  · exact fun _ _ _ _ _ => labelled_udp _
  · exact fun _ _ _ _ => labelled_tcp _

/-- A visit of the loop: the name stays, and so do the outputs of the others. -/
structure Visits (x : Entry) (r : Option Entry × List Out) : Prop where
  keeps : KeepsName x r
  labelled : Labelled x r

theorem visits_stay : Visits x (stay x) := ⟨keepsName_stay _, labelled_nil _⟩

theorem Visits.only {name : Nat} {f : Visit Entry Out} (h : Visits x (f x)) :
    Visits x (only Entry.name name f x) :=
  ⟨h.keeps.only, h.labelled.only⟩

theorem stepVisit_visits (c : Config) (l : Loop) {i : Input} (hi : i.looping) (x : Entry) :
    Visits x (stepVisit c l i x) := by
  cases i with
  | monitor e => exact ⟨monitorVisit_name c.abi e x, monitorVisit_labelled c.abi e x⟩
  | check e => exact ⟨checkVisit_name _ _ e x, checkVisit_labelled _ _ e x⟩
  | packet e p =>
    have hpacket : Visits x (packetVisit c.abi e p x) :=
      ⟨packetVisit_name c.abi e p x, packetVisit_labelled c.abi e p x⟩
    simp only [stepVisit]
    cases passes c l p with
    | false => exact visits_stay
    | true =>
      cases l.table.find? p.finds with
      | some y => exact hpacket.only
      | none => exact visits_stay
  | socket name e t =>
    have hsocket : Visits x (socketVisit c.abi e t x) :=
      ⟨socketVisit_name c.abi e t x, socketVisit_labelled c.abi e t x⟩
    exact hsocket.only
  | allowed e => cases hi
  | clear => cases hi

end

/-! ## A step, entry by entry -/

section

variable {l : Loop}

theorem stepVisit_dropped {c : Config} {p : Packet} (h : passes c l p = false) (e : PacketEnv) :
    stepVisit c l (.packet e p) = stay := by
  simp [stepVisit, h]

theorem stepVisit_found {c : Config} {p : Packet} {x : Entry} (h : passes c l p = true)
    (hfind : l.table.find? p.finds = some x) (e : PacketEnv) :
    stepVisit c l (.packet e p) = only Entry.name x.name (packetVisit c.abi e p) := by
  simp [stepVisit, h, hfind]

theorem stepVisit_unfound {c : Config} {p : Packet} (hfind : l.table.find? p.finds = none)
    (e : PacketEnv) :
    stepVisit c l (.packet e p) = stay := by
  simp [stepVisit, hfind]

@[simp] theorem sweep_stay (xs : List Entry) : sweep stay xs = (xs, []) := by
  induction xs with
  | nil => rfl
  | cons x xs ih => simp [ih, stay]

/-- The outputs of sessions. -/
def named (outs : List Out) : List Out := outs.filter (·.name.isSome)

/-- A step that creates no session visits the entries of the table. -/
structure OnlyVisits (c : Config) (l : Loop) (i : Input) (r : Loop × List Out) : Prop where
  next : r.1.next = l.next
  table : r.1.table = (sweep (stepVisit c l i) l.table).1
  outs : named r.2 = named (sweep (stepVisit c l i) l.table).2

theorem onlyVisits_stay {c : Config} {i : Input} {r : Loop × List Out} (hi : stepVisit c l i = stay)
    (hnext : r.1.next = l.next) (htable : r.1.table = l.table)
    (houts : named r.2 = []) : OnlyVisits c l i r := by
  refine ⟨hnext, ?_, ?_⟩
  · rw [hi, sweep_stay, htable]
  · rw [hi, sweep_stay, houts]
    rfl

/-- A packet that is not handled leaves the table as it is, and so does one that finds no
session and gets none. -/
theorem handleIp_dropped {c : Config} {p : Packet} (h : passes c l p = false) (e : PacketEnv) :
    handleIp c e p l = (l, []) := by
  unfold handleIp
  cases hlimit : limited c p l with
  | true => rfl
  | false =>
    cases p with
    | icmp p =>
      have htype : p.type ≠ icmpEcho := by simpa [passes, hlimit, Packet.handled] using h
      exact if_pos htype
    | udp p => simp [passes, hlimit, Packet.handled] at h
    | tcp p => simp [passes, hlimit, Packet.handled] at h

theorem handleIp_found {c : Config} {p : Packet} {x : Entry} (h : passes c l p = true)
    (hfind : l.table.find? p.finds = some x) (e : PacketEnv) :
    handleIp c e p l = l.visit x (packetVisit c.abi e p) := by
  obtain ⟨hlimit, hhandled⟩ : limited c p l = false ∧ p.handled = true := by simpa [passes] using h
  unfold handleIp
  rw [hlimit]
  cases p with
  | icmp p =>
    have htype : p.type = icmpEcho := by simpa [Packet.handled] using hhandled
    have hfind : l.table.find? (matchesIcmp p) = some x := hfind
    show handleIcmp e p l = _
    simp only [handleIcmp, htype, ne_eq, not_true, if_false, hfind]
    rfl
  | udp p =>
    have hfind : l.table.find? (matchesUdp p) = some x := hfind
    show handleUdp e p l = _
    simp only [handleUdp, hfind]
    rfl
  | tcp p =>
    have hfind : l.table.find? (matchesTcp p) = some x := hfind
    show handleTcp c.abi e p l = _
    simp only [handleTcp, hfind]
    rfl

theorem handleIp_unfound {c : Config} {p : Packet} (h : passes c l p = true)
    (hfind : l.table.find? p.finds = none) (e : PacketEnv) :
    (p.starts ∧ handleIp c e p l = l.create e.sock (created e l.next p)) ∨
      (¬ p.starts ∧ ∃ outs, handleIp c e p l = (l, outs) ∧ named outs = []) := by
  obtain ⟨hlimit, hhandled⟩ : limited c p l = false ∧ p.handled = true := by simpa [passes] using h
  refine handleIp_cases c e p l ?_ ?_ ?_ ?_
  · exact fun hstarts => .inr ⟨hstarts hlimit hfind, [], rfl, rfl⟩
  · exact fun q _ _ hstarts => .inr ⟨hstarts, _, rfl, rfl⟩
  · intro x _ hx
    rw [hfind] at hx
    cases hx
  · exact fun _ _ hstarts => .inl ⟨hstarts, rfl⟩

theorem step_packet (c : Config) (l : Loop) (e : PacketEnv) (p : Packet) :
    (∃ fd, Creates c l e p fd ∧
        step c l (.packet e p) =
          (l.insert fd ⟨l.next, (created e l.next p fd).1⟩,
            .socket fd :: (created e l.next p fd).2)) ∨
      (∀ fd, ¬ Creates c l e p fd) ∧ OnlyVisits c l (.packet e p) (step c l (.packet e p)) := by
  show _ ∨ _ ∧ OnlyVisits c l (.packet e p) (handleIp c e p l)
  cases h : passes c l p with
  | false =>
    refine .inr ⟨fun fd hc => by simp [hc.1] at h, ?_⟩
    rw [handleIp_dropped h]
    exact onlyVisits_stay (stepVisit_dropped h e) rfl rfl rfl
  | true =>
    cases hfind : l.table.find? p.finds with
    | some x =>
      refine .inr ⟨fun fd hc => by simp [hc.2.1] at hfind, ?_⟩
      rw [handleIp_found h hfind]
      constructor
      case next => rfl
      case table => rw [stepVisit_found h hfind]; rfl
      case outs => rw [stepVisit_found h hfind]; rfl
    | none =>
      have hvisit := stepVisit_unfound (c := c) hfind e
      rcases handleIp_unfound h hfind e with ⟨hstarts, hstep⟩ | ⟨hstarts, outs, hstep, houts⟩
      · cases hsock : e.sock with
        | ok fd =>
          refine .inl ⟨fd, ⟨h, hfind, hstarts, hsock⟩, ?_⟩
          show handleIp c e p l = _
          rw [hstep, hsock]
          rfl
        | failed =>
          rw [hsock] at hstep
          refine .inr ⟨fun fd hc => (by cases hsock.symm.trans hc.2.2.2), ?_⟩
          rw [hstep]
          exact onlyVisits_stay hvisit rfl rfl rfl
        | leaked fd =>
          rw [hsock] at hstep
          refine .inr ⟨fun fd hc => (by cases hsock.symm.trans hc.2.2.2), ?_⟩
          rw [hstep]
          exact onlyVisits_stay hvisit rfl rfl rfl
      · refine .inr ⟨fun fd hc => hstarts hc.2.2.1, ?_⟩
        rw [hstep]
        exact onlyVisits_stay hvisit rfl rfl houts

theorem step_onlyVisits (c : Config) (l : Loop) {i : Input} (hi : i.looping)
    (h : ∀ e p fd, i = .packet e p → ¬ Creates c l e p fd) : OnlyVisits c l i (step c l i) := by
  cases i with
  | monitor e => exact ⟨rfl, rfl, rfl⟩
  | check e => exact ⟨rfl, rfl, rfl⟩
  | packet e p =>
    rcases step_packet c l e p with ⟨fd, hcreates, -⟩ | ⟨-, hvisits⟩
    · exact absurd hcreates (h e p fd rfl)
    · exact hvisits
  | socket name e t => exact ⟨rfl, rfl, rfl⟩
  | allowed e => cases hi
  | clear => cases hi

theorem step_creates {c : Config} {e : PacketEnv} {p : Packet} {fd : Nat} (h : Creates c l e p fd) :
    step c l (.packet e p) =
      (l.insert fd ⟨l.next, (created e l.next p fd).1⟩,
        .socket fd :: (created e l.next p fd).2) := by
  rcases step_packet c l e p with ⟨fd', hcreates, hstep⟩ | ⟨hnot, -⟩
  · obtain rfl : fd' = fd := by
      have hsock := hcreates.2.2.2.symm.trans h.2.2.2
      injection hsock
    exact hstep
  · exact absurd h (hnot fd)

theorem step_next_le (c : Config) (l : Loop) {i : Input} (hi : i.looping) :
    l.next ≤ (step c l i).1.next := by
  by_cases hcreates : ∃ e p fd, i = .packet e p ∧ Creates c l e p fd
  · obtain ⟨e, p, fd, rfl, hcreates⟩ := hcreates
    rw [step_creates hcreates]
    exact Nat.le_succ _
  · have honly := step_onlyVisits c l hi fun e p fd he hc => hcreates ⟨e, p, fd, he, hc⟩
    exact Nat.le_of_eq honly.next.symm

/-! ## Outputs and entries by name -/

/-- `own` picks outputs in the name `n`. -/
def Picks {ω : Type} (own : Out → Option ω) (n : Nat) : Prop := ∀ o, own o ≠ none → o.name = some n

section

variable {ω : Type} {own : Out → Option ω} {n : Nat} {c : Config}

theorem Picks.named (h : Picks own n) (outs : List Out) :
    (named outs).filterMap own = outs.filterMap own := by
  rw [Table.named, List.filterMap_filter]
  congr 1
  funext o
  split
  · rfl
  · rename_i hname
    by_contra hown
    rw [h o (Ne.symm hown)] at hname
    exact hname rfl

theorem Picks.labelled (h : Picks own n) {x : Entry} {r : Option Entry × List Out}
    (hr : Labelled x r) (hx : x.name ≠ n) :
    r.2.filterMap own = [] := by
  rw [List.filterMap_eq_nil_iff]
  intro o ho
  by_contra hown
  exact hx (hr o ho n (h o hown)).symm

theorem created_name (e : PacketEnv) (name : Nat) (p : Packet) (fd : Nat) :
    ∀ o ∈ (created e name p fd).2, o.name = some name := by
  cases p with
  | icmp p =>
    intro o ho
    obtain ⟨o, -, rfl⟩ := List.mem_map.mp ho
    rfl
  | udp p =>
    intro o ho
    obtain ⟨o, -, rfl⟩ := List.mem_map.mp ho
    rfl
  | tcp p => exact fun o ho => by cases ho

theorem Picks.created (h : Picks own n) (e : PacketEnv) {name : Nat} (hname : name ≠ n) (p : Packet)
    (fd : Nat) :
    (Table.created e name p fd).2.filterMap own = [] := by
  rw [List.filterMap_eq_nil_iff]
  intro o ho
  by_contra hown
  have hboth := (created_name e name p fd o ho).symm.trans (h o hown)
  exact hname (Option.some.inj hboth)

theorem Picks.socket (h : Picks own n) (fd : Int) (outs : List Out) :
    (Out.socket fd :: outs).filterMap own = outs.filterMap own := by
  refine List.filterMap_cons_none ?_
  by_contra hown
  cases h _ hown

theorem find_insert (fd : Nat) (x : Entry) (n : Nat) :
    (l.insert fd x).find n = if x.name = n then some x else l.find n := by
  unfold Loop.find Loop.insert
  rw [List.find?_cons]
  by_cases h : x.name = n <;> simp [h]

/-- What a step does in the name of an old session, there or gone, is what it does to its
entry. -/
theorem step_old (hl : Named l) (hown : Picks own n) (hn : n < l.next) {i : Input}
    (hi : i.looping) :
    (step c l i).1.find n = (l.find n).bind (fun x => (stepVisit c l i x).1) ∧
      (step c l i).2.filterMap own =
        (l.find n).elim [] (fun x => (stepVisit c l i x).2.filterMap own) := by
  have hvisits : ∀ x, Visits x (stepVisit c l i x) := stepVisit_visits c l hi
  have hfind : (sweep (stepVisit c l i) l.table).1.find? (·.name = n) =
      (l.find n).bind fun x => (stepVisit c l i x).1 :=
    find?_sweep hl.unique fun x _ => (hvisits x).keeps
  have houts : (sweep (stepVisit c l i) l.table).2.filterMap own =
      (l.find n).elim [] fun x => (stepVisit c l i x).2.filterMap own :=
    filterMap_sweep hl.unique fun x _ hx => hown.labelled (hvisits x).labelled hx
  by_cases hcreates : ∃ e p fd, i = .packet e p ∧ Creates c l e p fd
  · obtain ⟨e, p, fd, rfl, hcreates⟩ := hcreates
    rw [stepVisit_unfound hcreates.2.1 e, sweep_stay] at hfind houts
    rw [step_creates hcreates, stepVisit_unfound hcreates.2.1 e]
    have hne : l.next ≠ n := Nat.ne_of_gt hn
    constructor
    · rw [find_insert, if_neg hne]
      exact hfind
    · rw [hown.socket, hown.created e hne]
      exact houts
  · have honly := step_onlyVisits c l hi fun e p fd he hc => hcreates ⟨e, p, fd, he, hc⟩
    constructor
    · rw [← hfind, Loop.find, honly.table]
    · rw [← houts, ← hown.named, honly.outs, hown.named]

/-- A session that a packet creates. -/
theorem step_new {e : PacketEnv} {p : Packet} {fd : Nat} (h : Creates c l e p fd)
    (hown : Picks own l.next) :
    (step c l (.packet e p)).1.find l.next = some ⟨l.next, (created e l.next p fd).1⟩ ∧
      (step c l (.packet e p)).2.filterMap own = (created e l.next p fd).2.filterMap own := by
  rw [step_creates h, find_insert, if_pos rfl, hown.socket]
  exact ⟨rfl, rfl⟩

/-- Nothing is done in a name before it is given. -/
theorem step_later (hl : Named l) (hown : Picks own n) (hn : l.next ≤ n) {i : Input}
    (hi : i.looping) :
    ((step c l i).1.next ≤ n ∧ (step c l i).2.filterMap own = []) ∨
      n = l.next ∧ ∃ e p fd, i = .packet e p ∧ Creates c l e p fd := by
  by_cases hcreates : ∃ e p fd, i = .packet e p ∧ Creates c l e p fd
  · by_cases hnext : n = l.next
    · exact .inr ⟨hnext, hcreates⟩
    · obtain ⟨e, p, fd, rfl, hcreates⟩ := hcreates
      refine .inl ⟨?_, ?_⟩
      · rw [step_creates hcreates]
        exact Nat.lt_of_le_of_ne hn (Ne.symm hnext)
      · rw [step_creates hcreates, hown.socket, hown.created e (Ne.symm hnext)]
  · have honly := step_onlyVisits c l hi fun e p fd he hc => hcreates ⟨e, p, fd, he, hc⟩
    refine .inl ⟨by rw [honly.next]; exact hn, ?_⟩
    rw [← hown.named, honly.outs, hown.named, List.filterMap_eq_nil_iff]
    intro o ho
    obtain ⟨x, hx, hxo⟩ := mem_sweep_out.mp ho
    have hname : x.name ≠ n := Nat.ne_of_lt (Nat.lt_of_lt_of_le (hl.next x hx) hn)
    exact List.filterMap_eq_nil_iff.mp
      (hown.labelled (stepVisit_visits c l hi x).labelled hname) o hxo

end

end

/-! ## One session -/

/-- What a session is told, by its protocol. -/
inductive Told where
  | icmp (i : IcmpInput)
  | udp (i : UdpInput)
  | tcp (i : Tcp.Input)

/-- What a session emits. -/
inductive Said where
  | tcp (o : Tcp.Out)
  | datagram (o : Datagram.Out)
  deriving DecidableEq, Repr

/-- The machine of one session is that of its protocol. -/
def Session.step (abi : Abi) : Machine Session Told Said
  | .icmp s, .icmp i => (.icmp (icmpStep s i).1, (icmpStep s i).2.map .datagram)
  | .udp s, .udp i => (.udp (udpStep s i).1, (udpStep s i).2.map .datagram)
  | .tcp s, .tcp i => (.tcp (Tcp.step abi s i).1, (Tcp.step abi s i).2.map .tcp)
  | s, _ => (s, [])

def Out.said (n : Nat) : Out → Option Said
  | .tcp name o => if name = n then some (.tcp o) else none
  | .datagram name o => if name = n then some (.datagram o) else none
  | _ => none

/-- The search of the handler finds the entry with the name `n`. -/
def findsName (l : Loop) (p : Packet) (n : Nat) : Bool := (l.table.find? p.finds).any (·.name = n)

/-- What a step tells the session `n`: the passes over the table, the packets that get as
far as the search and find it, and the events on its socket. Of TCP packets these are the
packets with its addresses and ports. -/
def told (c : Config) (n : Nat) (l : Loop) : Session → Input → List Told
  | .tcp _, .monitor e => [.tcp (.monitor (e n))]
  | .tcp _, .check e =>
    [.tcp (.check ⟨(e n).now, (e n).now2, l.sessions, c.maxsessions, (e n).rstOk⟩)]
  | .udp _, .check e => [.udp (.check ⟨(e n).now, (e n).now2, l.sessions, c.maxsessions⟩)]
  | .icmp _, .check e => [.icmp (.check ⟨(e n).now, (e n).now2, l.sessions, c.maxsessions⟩)]
  | .tcp s, .packet e (.tcp p) =>
    if passes c l (.tcp p) && matchesTcp p ⟨n, .tcp s⟩ then [.tcp (.packet e.tcp p.segment)] else []
  | .udp _, .packet e (.udp p) =>
    if passes c l (.udp p) && findsName l (.udp p) n
      then [.udp (.packet ⟨e.now, e.send, e.tun⟩ p)] else []
  | .icmp _, .packet e (.icmp p) =>
    if passes c l (.icmp p) && findsName l (.icmp p) n then [.icmp (.packet e.now e.send p)] else []
  | .tcp s, .socket name _ t => if name = n ∧ 0 ≤ s.socket then [.tcp (.socket t)] else []
  | .udp _, .socket name e _ => if name = n then [.udp (.socket e)] else []
  | .icmp _, .socket name e _ => if name = n then [.icmp (.socket e)] else []
  | _, _ => []

/-- The session with the name `n`, as a part of the loop. -/
def sessionPart (c : Config) (n : Nat) : Part Loop Input Out Session Told Said where
  view l := (l.find n).map Entry.session
  told := told c n
  own := Out.said n

theorem picks_said (n : Nat) : Picks (Out.said n) n := by
  intro o ho
  cases o with
  | tcp name o =>
    by_cases h : name = n
    · exact congrArg some h
    · simp [Out.said, h] at ho
  | datagram name o =>
    by_cases h : name = n
    · exact congrArg some h
    · simp [Out.said, h] at ho
  | socket | close | reset | freed => exact absurd rfl ho

theorem said_tcp (n : Nat) (outs : List Tcp.Out) :
    (outs.map (Out.tcp n)).filterMap (Out.said n) = outs.map Said.tcp := by
  induction outs with
  | nil => rfl
  | cons o outs ih => simp [Out.said, ih]

theorem said_datagram (n : Nat) (outs : List Datagram.Out) :
    (outs.map (Out.datagram n)).filterMap (Out.said n) = outs.map Said.datagram := by
  induction outs with
  | nil => rfl
  | cons o outs ih => simp [Out.said, ih]

/-- A visit does to the session of `x` what the session does with `ks`. -/
structure VisitsAs (abi : Abi) (ks : List Told) (x : Entry)
    (r : Option Entry × List Out) : Prop where
  outs : r.2.filterMap (Out.said x.name) = (run (Session.step abi) x.session ks).2
  left : ∀ y, r.1 = some y → y.session = (run (Session.step abi) x.session ks).1

section

variable {abi : Abi} {x : Entry}

theorem visitsAs_stay : VisitsAs abi [] x (stay x) := by
  refine ⟨rfl, ?_⟩
  rintro y ⟨⟩
  rfl

theorem udpVisit_self {s : UdpSession} (hs : x.session = .udp s) : udpVisit x (s, []) = stay x := by
  obtain ⟨name, session⟩ := x
  subst hs
  rfl

theorem icmpVisit_self {s : IcmpSession} (hs : x.session = .icmp s) :
    icmpVisit x (s, []) = stay x := by
  obtain ⟨name, session⟩ := x
  subst hs
  rfl

theorem visitsAs_tcp {s : Tcp.Session} (hs : x.session = .tcp s) (i : Tcp.Input) :
    VisitsAs abi [.tcp i] x (tcpVisit x (Tcp.step abi s i)) := by
  refine ⟨?_, ?_⟩
  · rw [tcpVisit, said_tcp, hs]
    simp [Session.step]
  · rintro y ⟨⟩
    simp [hs, Session.step]

theorem visitsAs_udp {s : UdpSession} (hs : x.session = .udp s) (i : UdpInput) :
    VisitsAs abi [.udp i] x (udpVisit x (udpStep s i)) := by
  refine ⟨?_, ?_⟩
  · rw [udpVisit, said_datagram, hs]
    simp [Session.step]
  · rintro y ⟨⟩
    simp [hs, Session.step]

theorem visitsAs_icmp {s : IcmpSession} (hs : x.session = .icmp s) (i : IcmpInput) :
    VisitsAs abi [.icmp i] x (icmpVisit x (icmpStep s i)) := by
  refine ⟨?_, ?_⟩
  · rw [icmpVisit, said_datagram, hs]
    simp [Session.step]
  · rintro y ⟨⟩
    simp [hs, Session.step]

theorem VisitsAs.deleteIf {ks : List Told} {r : Option Entry × List Out} (h : VisitsAs abi ks x r)
    (del : Bool) :
    VisitsAs abi ks x (deleteIf del r) := by
  cases del with
  | false => exact h
  | true =>
    have houts :
      (r.2 ++ (r.1.map fun y => Out.freed y.session).toList).filterMap (Out.said x.name) =
        r.2.filterMap (Out.said x.name) := by
      cases hr : r.1 with
      | none => simp
      | some y => simp [Out.said]
    constructor
    · exact houts.trans h.outs
    · exact fun _ hy => by cases hy

end

/-! ## Every visit -/

/-- The key of a TCP session; the other protocols share the table but not its keys. -/
def Entry.tcpKey (x : Entry) : Option Key :=
  match x.session with
  | .tcp s => some (Session.tcp s).key
  | _ => none

theorem matchesTcp_iff_tcpKey (p : TcpPacket) (x : Entry) :
    matchesTcp p x = true ↔ x.tcpKey = some (Packet.tcp p).key := by
  rw [matchesTcp_iff]
  obtain ⟨name, s⟩ := x
  cases s with
  | tcp s => rfl
  | icmp s =>
    cases h : s.stop <;> simp [Entry.key, Entry.tcpKey, Session.found, Session.key, Packet.key, h]
  | udp s => simp [Entry.key, Entry.tcpKey, Session.found, Session.key, Packet.key]

/-- Names are unique, and so are the keys of the TCP sessions. -/
structure Apart (l : Loop) : Prop where
  named : Named l
  keys : (l.table.filterMap Entry.tcpKey).Nodup

section

variable {l : Loop} {x : Entry}

theorem Apart.finds_tcp (h : Apart l) (hx : x ∈ l.table) {p : TcpPacket}
    (hp : matchesTcp p x = true) :
    l.table.find? (matchesTcp p) = some x :=
  find?_of_nodup (matchesTcp_iff_tcpKey p) h.keys hx ((matchesTcp_iff_tcpKey p x).mp hp)

theorem findsName_iff (h : Named l) (hx : x ∈ l.table) (p : Packet) :
    findsName l p x.name = true ↔ l.table.find? p.finds = some x := by
  unfold findsName
  cases hfind : l.table.find? p.finds with
  | none => simp
  | some y =>
    have hy := List.mem_of_find?_eq_some hfind
    constructor
    · intro hname
      rw [h.eq hx hy (by simpa using hname)]
    · intro he
      cases he
      simp

/-- A packet for another session. -/
theorem visitsAs_other {abi : Abi} (h : Named l) (hx : x ∈ l.table) {y : Entry} (hy : y ∈ l.table)
    (hne : y ≠ x) (f : Visit Entry Out) : VisitsAs abi [] x (only Entry.name y.name f x) := by
  have hname : x.name ≠ y.name := fun he => hne (h.eq hx hy he.symm)
  rw [only, if_neg hname]
  exact visitsAs_stay

/-- A packet tells nothing to a session that it does not find. -/
theorem told_unfound (h : Apart l) (hx : x ∈ l.table) (c : Config) (e : PacketEnv) (p : Packet)
    (hfind : l.table.find? p.finds ≠ some x) : told c x.name l x.session (.packet e p) = [] := by
  have hname : findsName l p x.name = false := by
    rw [Bool.eq_false_iff]
    exact fun hn => hfind ((findsName_iff h.named hx p).mp hn)
  cases hs : x.session with
  | icmp s => cases p <;> simp [told, hname]
  | udp s => cases p <;> simp [told, hname]
  | tcp s =>
    cases p with
    | icmp p | udp p => rfl
    | tcp p =>
      have hmatch : matchesTcp p ⟨x.name, .tcp s⟩ = false := by
        rw [Bool.eq_false_iff, ← hs]
        exact fun hm => hfind (h.finds_tcp hx hm)
      simp [told, hmatch]

/-- A packet does to the session that it finds what the session does with it. -/
theorem found_visitsAs (h : Apart l) (hx : x ∈ l.table) {c : Config} (e : PacketEnv) {p : Packet}
    (hpass : passes c l p = true) (hfind : l.table.find? p.finds = some x) :
    VisitsAs c.abi (told c x.name l x.session (.packet e p)) x (packetVisit c.abi e p x) := by
  have hname := (findsName_iff h.named hx p).mpr hfind
  have hmatch := List.find?_some hfind
  cases hs : x.session with
  | icmp s =>
    cases p with
    | icmp p =>
      have hvisit : packetVisit c.abi e (.icmp p) x =
          icmpVisit x (icmpStep s (.packet e.now e.send p)) := by
        simp [packetVisit, hs, icmpStep]
      rw [hvisit, told, if_pos (by simp [hpass, hname])]
      exact visitsAs_icmp hs _
    | udp p => simp [Packet.finds, matchesUdp, hs] at hmatch
    | tcp p => simp [Packet.finds, matchesTcp, hs] at hmatch
  | udp s =>
    cases p with
    | icmp p => simp [Packet.finds, matchesIcmp, hs] at hmatch
    | udp p =>
      have hvisit : packetVisit c.abi e (.udp p) x =
          udpVisit x (udpStep s (.packet ⟨e.now, e.send, e.tun⟩ p)) := by
        by_cases hst : s.state = .active
        · simp [packetVisit, hs, udpStep, hst]
        · simp only [packetVisit, hs, udpStep, hst, ne_eq, not_false_eq_true, if_true,
            udpVisit_self hs, stay]
      rw [hvisit, told, if_pos (by simp [hpass, hname])]
      exact visitsAs_udp hs _
    | tcp p => simp [Packet.finds, matchesTcp, hs] at hmatch
  | tcp s =>
    cases p with
    | icmp p => simp [Packet.finds, matchesIcmp, hs] at hmatch
    | udp p => simp [Packet.finds, matchesUdp, hs] at hmatch
    | tcp p =>
      have hvisit : packetVisit c.abi e (.tcp p) x =
          tcpVisit x (Tcp.step c.abi s (.packet e.tcp p.segment)) := by
        simp [packetVisit, hs]
      have hself : matchesTcp p ⟨x.name, .tcp s⟩ = true := by rw [← hs]; exact hmatch
      rw [hvisit, told, if_pos (by simp [hpass, hself])]
      exact visitsAs_tcp hs _

theorem packet_visitsAs (h : Apart l) (hx : x ∈ l.table) (c : Config) (e : PacketEnv) (p : Packet) :
    VisitsAs c.abi (told c x.name l x.session (.packet e p)) x (stepVisit c l (.packet e p) x) := by
  cases hpass : passes c l p with
  | false =>
    have htold : told c x.name l x.session (.packet e p) = [] := by
      cases hs : x.session <;> cases p <;> simp [told, hpass]
    rw [stepVisit_dropped hpass, htold]
    exact visitsAs_stay
  | true =>
    cases hfind : l.table.find? p.finds with
    | none =>
      rw [stepVisit_unfound hfind, told_unfound h hx c e p (by simp [hfind])]
      exact visitsAs_stay
    | some y =>
      rw [stepVisit_found hpass hfind]
      by_cases hyx : y = x
      · subst hyx
        rw [only, if_pos rfl]
        exact found_visitsAs h hx e hpass hfind
      · rw [told_unfound h hx c e p (by rw [hfind]; exact fun he => hyx (Option.some.inj he))]
        exact visitsAs_other h.named hx (List.mem_of_find?_eq_some hfind) hyx _

theorem socket_visitsAs (c : Config) (l : Loop) (x : Entry) (name : Nat) (e : SocketEnv)
    (t : Tcp.SocketEnv) :
    VisitsAs c.abi (told c x.name l x.session (.socket name e t)) x
      (stepVisit c l (.socket name e t) x) := by
  show VisitsAs _ _ x (only Entry.name name (socketVisit c.abi e t) x)
  by_cases hname : x.name = name
  · rw [only, if_pos hname]
    cases hs : x.session with
    | icmp s =>
      have hvisit : socketVisit c.abi e t x = icmpVisit x (icmpStep s (.socket e)) := by
        by_cases hclosed : s.socket < 0
        · simp only [socketVisit, Session.socket, hs, icmpStep, hclosed, if_true,
            icmpVisit_self hs, stay]
        · simp [socketVisit, Session.socket, hs, icmpStep, hclosed]
      rw [hvisit, told, if_pos hname.symm]
      exact visitsAs_icmp hs _
    | udp s =>
      have hvisit : socketVisit c.abi e t x = udpVisit x (udpStep s (.socket e)) := by
        by_cases hclosed : s.socket < 0
        · simp only [socketVisit, Session.socket, hs, udpStep, hclosed, if_true,
            udpVisit_self hs, stay]
        · by_cases hread : (!e.ev.err && e.ev.inn) = true
          · simp only [socketVisit, Session.socket, hs, udpStep, hclosed, hread, if_true, if_false]
          · simp [socketVisit, Session.socket, hs, udpStep, hclosed, hread, udpVisit_self hs, stay]
      rw [hvisit, told, if_pos hname.symm]
      exact visitsAs_udp hs _
    | tcp s =>
      by_cases hopen : 0 ≤ s.socket
      · have hvisit : socketVisit c.abi e t x = tcpVisit x (Tcp.step c.abi s (.socket t)) := by
          simp [socketVisit, Session.socket, hs, hopen]
        rw [hvisit, told, if_pos ⟨hname.symm, hopen⟩]
        exact visitsAs_tcp hs _
      · have hvisit : socketVisit c.abi e t x = stay x := by
          simp only [socketVisit, Session.socket, hs, Int.not_le.mp hopen, if_true, stay]
        rw [hvisit, told, if_neg (fun h => hopen h.2)]
        exact visitsAs_stay
  · have htold : told c x.name l x.session (.socket name e t) = [] := by
      have hne : ¬ name = x.name := fun he => hname he.symm
      cases hs : x.session <;> simp [told, hne]
    rw [only, if_neg hname, htold]
    exact visitsAs_stay

/-- A step does to every session what the session does with what it is told. -/
theorem stepVisit_visitsAs (h : Apart l) (hx : x ∈ l.table) (c : Config) {i : Input}
    (hi : i.looping) :
    VisitsAs c.abi (told c x.name l x.session i) x (stepVisit c l i x) := by
  cases i with
  | monitor e =>
    cases hs : x.session with
    | icmp s | udp s =>
      have hvisit : monitorVisit c.abi e x = stay x := by simp only [monitorVisit, hs, stay]
      show VisitsAs _ _ x (monitorVisit c.abi e x)
      rw [hvisit]
      exact visitsAs_stay
    | tcp s =>
      have hvisit : monitorVisit c.abi e x =
          tcpVisit x (Tcp.step c.abi s (.monitor (e x.name))) := by
        simp only [monitorVisit, hs]
      show VisitsAs _ _ x (monitorVisit c.abi e x)
      rw [hvisit]
      exact visitsAs_tcp hs _
  | check e =>
    show VisitsAs _ _ x (checkVisit l.sessions c.maxsessions e x)
    cases hs : x.session with
    | icmp s =>
      simp only [checkVisit, hs]
      exact (visitsAs_icmp hs (.check _)).deleteIf _
    | udp s =>
      simp only [checkVisit, hs]
      exact (visitsAs_udp hs (.check _)).deleteIf _
    | tcp s =>
      simp only [checkVisit, hs]
      exact (visitsAs_tcp hs (.check _)).deleteIf _
  | packet e p => exact packet_visitsAs h hx c e p
  | socket name e t => exact socket_visitsAs c l x name e t
  | allowed e => cases hi
  | clear => cases hi

end

/-! ## The table keeps its sessions apart -/

/-- A visit that leaves the key of a TCP session, and makes no session one. -/
def KeepsTcpKey (x : Entry) (r : Option Entry × List Out) : Prop :=
  ∀ y, r.1 = some y → y.tcpKey = x.tcpKey

theorem tcpKey_of_keepsKey {x y : Entry} (h : y.session.key = x.session.key) :
    y.tcpKey = x.tcpKey := by
  unfold Entry.tcpKey
  cases hx : x.session <;> cases hy : y.session <;> rw [hx, hy] at h
  case tcp.tcp => exact congrArg some h
  all_goals first | rfl | cases h

theorem keepsTcpKey_udp {x : Entry} {s : UdpSession} (hs : x.session = .udp s)
    (r : UdpSession × List Datagram.Out) :
    KeepsTcpKey x (udpVisit x r) := by
  rintro y ⟨⟩
  simp [Entry.tcpKey, hs]

theorem packetVisit_keepsTcpKey (abi : Abi) (e : PacketEnv) (p : Packet) (x : Entry) :
    KeepsTcpKey x (packetVisit abi e p x) := by
  refine packetVisit_cases abi e p x ?_ ?_ ?_ ?_
  · rintro y ⟨⟩
    rfl
  · intro q s _ hs y hy
    exact tcpKey_of_keepsKey ((keepsKey_icmp hs (forwardIcmp_leaves e.now e.send q s)).key y hy)
  · exact fun q s _ hs _ => keepsTcpKey_udp hs _
  · intro q s _ hs y hy
    exact tcpKey_of_keepsKey
      ((keepsKey_tcp hs (Tcp.step_fixed abi s (.packet e.tcp q.segment))).key y hy)

theorem KeepsTcpKey.only {x : Entry} {name : Nat} {f : Visit Entry Out} (h : KeepsTcpKey x (f x)) :
    KeepsTcpKey x (only Entry.name name f x) := by
  refine only_cases Entry.name name f x ?_ ?_
  · rintro y ⟨⟩
    rfl
  · exact fun _ => h

section

variable {l : Loop}

theorem Apart.pass (h : Apart l) {f : Visit Entry Out} (hname : ∀ x ∈ l.table, KeepsName x (f x))
    (hkey : ∀ x ∈ l.table, KeepsTcpKey x (f x)) : Apart (l.pass f).1 := by
  have hkeys :
      ((sweep f l.table).1.filterMap Entry.tcpKey).Sublist (l.table.filterMap Entry.tcpKey) :=
    filterMap_sublist fun x hx y hy => .inr (hkey x hx y hy)
  exact ⟨h.named.pass hname, hkeys.nodup h.keys⟩

/-- The key of a session that a packet creates is not there yet. -/
theorem Apart.create (h : Apart l) {p : Packet} (hnone : l.table.find? p.finds = none)
    (e : PacketEnv) :
    Apart (l.create e.sock (created e l.next p)).1 := by
  refine ⟨h.named.create _ _, ?_⟩
  cases e.sock with
  | failed => exact h.keys
  | leaked fd => exact h.keys
  | ok fd =>
    show ((_ :: l.table).filterMap Entry.tcpKey).Nodup
    cases p with
    | icmp p => exact h.keys
    | udp p => exact h.keys
    | tcp p =>
      have hnew : Entry.tcpKey ⟨l.next, (created e l.next (.tcp p) fd).1⟩ =
        some (Packet.tcp p).key := rfl
      rw [List.filterMap_cons_some hnew, List.nodup_cons]
      refine ⟨fun hmem => ?_, h.keys⟩
      obtain ⟨x, hx, hk⟩ := List.mem_filterMap.mp hmem
      exact List.find?_eq_none.mp hnone x hx ((matchesTcp_iff_tcpKey p x).mpr hk)

theorem handleIp_apart (h : Apart l) (c : Config) (e : PacketEnv) (p : Packet) :
    Apart (handleIp c e p l).1 := by
  refine handleIp_cases c e p l ?_ ?_ ?_ ?_
  · exact fun _ => h
  · exact fun _ _ _ _ => h
  · intro x _ _
    exact h.pass (fun y _ => (packetVisit_name c.abi e p y).only) fun y _ =>
      (packetVisit_keepsTcpKey c.abi e p y).only
  · exact fun _ hnone _ => h.create hnone e

theorem step_apart (c : Config) (h : Apart l) (i : Input) : Apart (step c l i).1 := by
  cases i with
  | monitor e =>
    have hcount : Apart { l with sessions := count l.table } :=
      ⟨⟨h.named.unique, h.named.next⟩, h.keys⟩
    exact hcount.pass (fun x _ => monitorVisit_name c.abi e x)
      fun x _ y hy => tcpKey_of_keepsKey ((monitorVisit_keepsKey c.abi e x).key y hy)
  | check e =>
    exact h.pass (fun x _ => checkVisit_name _ _ e x)
      fun x _ y hy => tcpKey_of_keepsKey ((checkVisit_keepsKey _ _ e x).key y hy)
  | packet e p => exact handleIp_apart h c e p
  | socket name e t =>
    refine h.pass (fun x _ => (socketVisit_name c.abi e t x).only) fun x _ => KeepsTcpKey.only ?_
    exact fun y hy => tcpKey_of_keepsKey ((socketVisit_keepsKey c.abi e t x).key y hy)
  | allowed e =>
    exact h.pass (fun x _ => allowedVisit_name e x)
      fun x _ y hy => tcpKey_of_keepsKey ((allowedVisit_keepsKey e x).key y hy)
  | clear => exact h.pass (fun x _ => keepsName_gone _) fun x _ y hy => by cases hy

theorem empty_apart : Apart empty := ⟨empty_named, by simp [empty]⟩

theorem run_apart (c : Config) (past : List Input) : Apart (run (step c) empty past).1 :=
  run_invariant (step c) (fun _ _ => True) (fun l _ => Apart l)
    (fun _ _ i hl _ => step_apart c hl i) past empty empty_apart
    (along_of_forall _ _ _ fun _ _ => trivial)

end

/-! ## Runs -/

section

variable {c : Config} {l : Loop} {n : Nat}

theorem step_alone (h : Apart l) (hn : n < l.next) {i : Input} (hi : i.looping) :
    (sessionPart c n).Alone (step c) (Session.step c.abi) l i := by
  obtain ⟨hfind, houts⟩ := step_old (c := c) h.named (picks_said n) hn hi
  cases hx : l.find n with
  | none =>
    rw [hx] at hfind houts
    constructor
    · exact fun s hs => by simp [sessionPart, hx] at hs
    · exact fun s hs => by simp [sessionPart, hx] at hs
    · exact fun _ => ⟨by simp [sessionPart, hfind], houts⟩
  | some x =>
    have hname : x.name = n := by simpa using List.find?_some hx
    have hvisit := stepVisit_visitsAs h (List.mem_of_find?_eq_some hx) c hi
    rw [hname] at hvisit
    rw [hx] at hfind houts
    have hview : (sessionPart c n).view l = some x.session := by simp [sessionPart, hx]
    constructor
    · intro s hs
      obtain rfl := Option.some.inj (hview.symm.trans hs)
      rw [← hname]
      exact (hname ▸ houts).trans (hname ▸ hvisit.outs)
    · intro s hs s' hs'
      obtain rfl := Option.some.inj (hview.symm.trans hs)
      obtain ⟨y, hy, rfl⟩ := Option.map_eq_some_iff.mp hs'
      rw [hfind] at hy
      exact hvisit.left y hy
    · intro hnone
      rw [hview] at hnone
      cases hnone

/-- A step of the loop in which the name `n` is given. -/
def Running (n : Nat) (l : Loop) (i : Input) : Prop := Apart l ∧ n < l.next ∧ i.looping

theorem along_running (h : Apart l) (hn : n < l.next) {is : List Input}
    (his : ∀ i ∈ is, i.looping) :
    Along (step c) (Running n) l is := by
  refine along_of_invariant (step c) (fun _ i => i.looping) _ (fun l => Apart l ∧ n < l.next) ?_
    is l ⟨h, hn⟩
    (along_of_forall _ _ _ his)
  rintro l i ⟨hl, hn⟩ hi
  exact ⟨⟨hl, hn, hi⟩, step_apart c hl i, Nat.lt_of_lt_of_le hn (step_next_le c l hi)⟩

theorem along_alone (h : Apart l) (hn : n < l.next) {is : List Input} (his : ∀ i ∈ is, i.looping) :
    Along (step c) ((sessionPart c n).Alone (step c) (Session.step c.abi)) l is :=
  along_of_invariant (step c) (Running n) _ (fun _ => True)
    (fun _ _ _ hi => ⟨step_alone hi.1 hi.2.1 hi.2.2, trivial⟩) is l trivial
    (along_running h hn his)

theorem told_length (c : Config) (n : Nat) (l : Loop) (s : Session) (i : Input) :
    (told c n l s i).length ≤ 1 := by
  unfold told
  split <;> first | (split <;> simp) | simp

theorem lt_next_of_view (h : Named l) {s : Session}
    (hs : (sessionPart c n).view l = some s) : n < l.next := by
  obtain ⟨x, hx, -⟩ := Option.map_eq_some_iff.mp hs
  have hname : x.name = n := by simpa using List.find?_some hx
  exact hname ▸ h.next x (List.mem_of_find?_eq_some hx)

/-- What holds of all that single steps tell a session, holds of what it hears in a run. -/
theorem along_heard {P : Loop → Input → Prop} {Q : Session → Told → Prop} (h : Apart l)
    {s : Session} (hs : (sessionPart c n).view l = some s) {is : List Input}
    (his : ∀ i ∈ is, i.looping) (hP : Along (step c) P l is)
    (htold : ∀ l s i, Apart l → (sessionPart c n).view l = some s → P l i →
      ∀ k ∈ told c n l s i, Q s k) :
    Along (Session.step c.abi) Q s ((sessionPart c n).heard (step c) l is) := by
  have hrunning := along_running (c := c) h (lt_next_of_view h.named hs) his
  refine Part.along_alone (fun l i hi => step_alone hi.1.1 hi.1.2.1 hi.1.2.2) ?_ l is
    ((along_and _ _ _ _ _).mpr ⟨hrunning, hP⟩) hs
  intro l i s hi hs
  have hall : ∀ k ∈ told c n l s i, Q s k := htold l s i hi.1.1 hs hi.2
  have hlength := told_length c n l s i
  show Along _ _ s (told c n l s i)
  match hk : told c n l s i with
  | [] => trivial
  | [k] => exact ⟨hall k (by simp [hk]), trivial⟩
  | _ :: _ :: _ => simp [hk] at hlength

end

/-- The session that a packet creates, and what its creation tells it. -/
def opening (e : PacketEnv) : Packet → Nat → Session × List Told
  | .icmp p, fd => (.icmp (newIcmpSession e.now fd p), [.icmp (.packet e.now e.send p)])
  | .udp p, fd => (.udp (newUdpSession e.now fd p), [.udp (.packet ⟨e.now, e.send, e.tun⟩ p)])
  | .tcp p, fd => (.tcp (Tcp.newSession (tcpSyn e p fd) p.segment), [])

theorem created_eq (abi : Abi) (e : PacketEnv) (n : Nat) (p : Packet) (fd : Nat) :
    (created e n p fd).1 = (run (Session.step abi) (opening e p fd).1 (opening e p fd).2).1 ∧
      (created e n p fd).2.filterMap (Out.said n) =
        (run (Session.step abi) (opening e p fd).1 (opening e p fd).2).2 := by
  cases p with
  | icmp p => exact ⟨rfl, (said_datagram n _).trans (List.append_nil _).symm⟩
  | udp p => exact ⟨rfl, (said_datagram n _).trans (List.append_nil _).symm⟩
  | tcp p => exact ⟨rfl, rfl⟩

/-- The packet `p` creates the session `n` in a run, between `before` and `after`. -/
structure Born (c : Config) (l : Loop) (is : List Input) (n : Nat) (before : List Input)
    (e : PacketEnv) (p : Packet) (fd : Nat) (after : List Input) : Prop where
  whole : is = before ++ .packet e p :: after
  creates : Creates c (run (step c) l before).1 e p fd
  name : (run (step c) l before).1.next = n

/-- The loop in which a session has just been created. -/
def bornIn (c : Config) (l : Loop) (before : List Input) (e : PacketEnv) (p : Packet) : Loop :=
  (step c (run (step c) l before).1 (.packet e p)).1

/-- Behind a run with the result `r`, the session `n` has done what `s` does with `ks`; it
may be deleted since. -/
structure Follows (c : Config) (n : Nat) (r : Loop × List Out) (s : Session)
    (ks : List Told) : Prop where
  outs : (sessionPart c n).outs r.2 = (run (Session.step c.abi) s ks).2
  left : ∀ s', (sessionPart c n).view r.1 = some s' → s' = (run (Session.step c.abi) s ks).1

/-- A session that is there from the start follows its machine. -/
theorem run_old {c : Config} {l : Loop} (h : Apart l) {n : Nat} {s : Session}
    (hs : (sessionPart c n).view l = some s) {is : List Input} (his : ∀ i ∈ is, i.looping) :
    Follows c n (run (step c) l is) s ((sessionPart c n).heard (step c) l is) := by
  obtain ⟨houts, hleft⟩ :=
    Part.run_alone l is (along_alone (c := c) h (lt_next_of_view h.named hs) his) hs
  exact ⟨houts, hleft⟩

theorem view_of_next {c : Config} {l : Loop} (h : Named l) {n : Nat} (hn : l.next ≤ n) :
    (sessionPart c n).view l = none := by
  have hfind : l.find n = none := by
    refine List.find?_eq_none.mpr fun x hx => ?_
    have hlt := h.next x hx
    have hne : x.name ≠ n := by omega
    simpa using hne
  simp [sessionPart, hfind]

theorem run_next_le (c : Config) (l : Loop) {is : List Input} (his : ∀ i ∈ is, i.looping) :
    l.next ≤ (run (step c) l is).1.next := by
  induction is generalizing l with
  | nil => exact Nat.le_refl _
  | cons i is ih =>
    obtain ⟨hi, hrest⟩ := List.forall_mem_cons.mp his
    exact Nat.le_trans (step_next_le c l hi) (ih _ hrest)

/-- Nothing is done in a name as long as it is not given. -/
theorem run_silent {c : Config} {l : Loop} (h : Apart l) {n : Nat} {is : List Input}
    (his : ∀ i ∈ is, i.looping) (hn : (run (step c) l is).1.next ≤ n) :
    (sessionPart c n).outs (run (step c) l is).2 = [] := by
  induction is generalizing l with
  | nil => rfl
  | cons i is ih =>
    obtain ⟨hi, hrest⟩ := List.forall_mem_cons.mp his
    have hle : (step c l i).1.next ≤ n := Nat.le_trans (run_next_le c _ hrest) hn
    rcases step_later h.named (picks_said n) (Nat.le_trans (step_next_le c l hi) hle) hi
      with ⟨-, houts⟩ | ⟨hname, e, p, fd, rfl, hcreates⟩
    · rw [run_cons, Part.outs_append, ih (step_apart c h i) hrest hn]
      exact (List.append_nil _).trans houts
    · rw [step_creates hcreates, hname] at hle
      exact absurd hle (Nat.not_succ_le_self _)

section

variable {c : Config} {l : Loop} {n fd : Nat} {is before after : List Input} {e : PacketEnv}
    {p : Packet}

theorem bornIn_apart (h : Apart l) : Apart (bornIn c l before e p) := by
  have hbefore : Apart (run (step c) l before).1 :=
    run_invariant (step c) (fun _ _ => True) (fun l _ => Apart l)
      (fun _ _ i hl _ => step_apart c hl i) before l h
      (along_of_forall _ _ _ fun _ _ => trivial)
  exact step_apart c hbefore _

/-- The session is there as soon as it is created. -/
theorem Born.view (h : Born c l is n before e p fd after) :
    (sessionPart c n).view (bornIn c l before e p) = some (created e n p fd).1 := by
  obtain ⟨hfind, -⟩ := step_new h.creates (picks_said _)
  rw [h.name] at hfind
  show ((step c (run (step c) l before).1 (.packet e p)).1.find n).map Entry.session = _
  rw [hfind]
  rfl

/-- A session that is created in a run follows its machine from there on. -/
theorem run_born (h : Apart l) (hborn : Born c l is n before e p fd after)
    (his : ∀ i ∈ is, i.looping) :
    Follows c n (run (step c) l is) (opening e p fd).1
      ((opening e p fd).2 ++ (sessionPart c n).heard (step c) (bornIn c l before e p) after) := by
  have hbefore : ∀ i ∈ before, i.looping := fun i hi => his i (by simp [hborn.whole, hi])
  have hafter : ∀ i ∈ after, i.looping := fun i hi => his i (by simp [hborn.whole, hi])
  have hsilent := run_silent h hbefore (Nat.le_of_eq hborn.name)
  obtain ⟨-, hfirst⟩ := step_new hborn.creates (picks_said _)
  rw [hborn.name] at hfirst
  obtain ⟨hstate, hopening⟩ := created_eq c.abi e n p fd
  have hrest := run_old (bornIn_apart h) hborn.view hafter
  have hrun : run (step c) l is =
    ((run (step c) (bornIn c l before e p) after).1, (run (step c) l before).2 ++
      ((step c (run (step c) l before).1 (.packet e p)).2 ++
        (run (step c) (bornIn c l before e p) after).2)) := by
    rw [hborn.whole, run_append, run_cons]
    rfl
  rw [hstate] at hrest
  constructor
  · rw [hrun, Part.outs_append, Part.outs_append, hsilent, hrest.outs, run_append, ← hopening]
    exact congrArg (· ++ _) hfirst
  · intro s' hs'
    rw [hrun] at hs'
    rw [run_append]
    exact hrest.left s' hs'

/-- A name that is free and stays silent, or is given by a packet of the run. -/
theorem run_comes (h : Apart l) (hn : l.next ≤ n) (his : ∀ i ∈ is, i.looping) :
    (run (step c) l is).1.next ≤ n ∨ ∃ before e p fd after, Born c l is n before e p fd after := by
  induction is generalizing l with
  | nil => exact .inl hn
  | cons i is ih =>
    obtain ⟨hi, hrest⟩ := List.forall_mem_cons.mp his
    rcases step_later (c := c) h.named (picks_said n) hn hi
      with ⟨hnext, -⟩ | ⟨hname, e, p, fd, rfl, hcreates⟩
    · rcases ih (step_apart c h i) hnext hrest with hend | ⟨before, e, p, fd, after, hborn⟩
      · exact .inl hend
      · exact .inr ⟨i :: before, e, p, fd, after, by rw [hborn.whole]; rfl,
          hborn.creates, hborn.name⟩
    · exact .inr ⟨[], e, p, fd, is, rfl, hcreates, hname.symm⟩

end

/-- Every session of a run of the loop is on its own: a session that is there from the
start does what the machine of its protocol does with what it is told, and so does a
session that a packet creates in the run, from its first packet on. Nothing else is done in
its name, and once it is deleted it does not come back. -/
theorem sessions_apart (c : Config) (past is : List Input) (his : ∀ i ∈ is, i.looping) (n : Nat) :
    let l := (run (step c) empty past).1
    let q := sessionPart c n
    (∀ s, q.view l = some s → Follows c n (run (step c) l is) s (q.heard (step c) l is)) ∧
      (q.view l = none → (q.outs (run (step c) l is).2 = [] ∧ q.view (run (step c) l is).1 = none) ∨
        ∃ before e p fd after, Born c l is n before e p fd after ∧
          Follows c n (run (step c) l is) (opening e p fd).1
            ((opening e p fd).2 ++ q.heard (step c) (bornIn c l before e p) after)) := by
  intro l q
  have hl : Apart l := run_apart c past
  refine ⟨fun s hs => run_old hl hs his, fun hnone => ?_⟩
  by_cases hn : n < l.next
  · obtain ⟨hview, houts, -⟩ := Part.run_gone l is (along_alone (c := c) hl hn his) hnone
    exact .inl ⟨houts, hview⟩
  · rcases run_comes hl (Nat.le_of_not_lt hn) his with hend | ⟨before, e, p, fd, after, hborn⟩
    · have hlast : Apart (run (step c) l is).1 := by
        show Apart (run (step c) (run (step c) empty past).1 is).1
        have hboth := run_apart c (past ++ is)
        rw [run_append] at hboth
        exact hboth
      exact .inl ⟨run_silent hl his hend, view_of_next hlast.named hend⟩
    · exact .inr ⟨before, e, p, fd, after, hborn, run_born hl hborn his⟩

/-- Two UDP flows, the second packet of the first one behind the packet of the other. -/
def twoFlows : List Input :=
  [.packet (plainEnv 3) (udpPacket client 40000 (server 34) 9999 [1]),
    .packet (plainEnv 4) (udpPacket client 40001 (server 34) 9999 [2]),
    .packet (plainEnv 5) (udpPacket client 40000 (server 34) 9999 [3])]

theorem sessions_apart_two :
    ∃ before e p fd after, Born (plainConfig 100 false) empty twoFlows 1 before e p fd after ∧
    Follows (plainConfig 100 false) 1 (run (step (plainConfig 100 false)) empty twoFlows)
    (opening e p fd).1
      ((opening e p fd).2 ++ (sessionPart (plainConfig 100 false) 1).heard
        (step (plainConfig 100 false))
        (bornIn (plainConfig 100 false) empty before e p) after) := by
  rcases (sessions_apart (plainConfig 100 false) [] twoFlows (by decide) 1).2 rfl
    with ⟨-, hgone⟩ | hborn
  · exact absurd hgone (by decide +kernel)
  · exact hborn

/-! ## The machines of the protocols -/

def Told.tcpOf : Told → Option Tcp.Input
  | .tcp i => some i
  | _ => none

def Told.udpOf : Told → Option UdpInput
  | .udp i => some i
  | _ => none

def Told.icmpOf : Told → Option IcmpInput
  | .icmp i => some i
  | _ => none

theorem run_tcp (abi : Abi) (s : Tcp.Session) (ks : List Told) :
    run (Session.step abi) (.tcp s) ks =
      (.tcp (run (Tcp.step abi) s (ks.filterMap Told.tcpOf)).1,
        (run (Tcp.step abi) s (ks.filterMap Told.tcpOf)).2.map .tcp) := by
  refine run_embedded _ _ Session.tcp Said.tcp Told.tcpOf ?_ ?_ s ks
  · intro s k i hk
    cases k <;> cases hk
    rfl
  · intro s k hk
    cases k <;> first | rfl | cases hk

theorem run_udp (abi : Abi) (s : UdpSession) (ks : List Told) : run (Session.step abi) (.udp s) ks =
    (.udp (run udpStep s (ks.filterMap Told.udpOf)).1,
      (run udpStep s (ks.filterMap Told.udpOf)).2.map .datagram) := by
  refine run_embedded _ _ Session.udp Said.datagram Told.udpOf ?_ ?_ s ks
  · intro s k i hk
    cases k <;> cases hk
    rfl
  · intro s k hk
    cases k <;> first | rfl | cases hk

theorem run_icmp (abi : Abi) (s : IcmpSession) (ks : List Told) :
    run (Session.step abi) (.icmp s) ks =
      (.icmp (run icmpStep s (ks.filterMap Told.icmpOf)).1,
        (run icmpStep s (ks.filterMap Told.icmpOf)).2.map .datagram) := by
  refine run_embedded _ _ Session.icmp Said.datagram Told.icmpOf ?_ ?_ s ks
  · intro s k i hk
    cases k <;> cases hk
    rfl
  · intro s k hk
    cases k <;> first | rfl | cases hk

end PdaNetClient.Table
