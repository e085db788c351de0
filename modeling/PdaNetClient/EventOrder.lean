import PdaNetClient.EventLoop

/-!
# The events of a batch

Each event that `epoll_wait` reports is handled once, and in the order of the report; the end
of the loop leaves the rest of its last batch, behind the event that ended it. The sessions
themselves do not care for the order: with the events of different sessions in another order
the loop comes to the same table.
-/
namespace PdaNetClient.Events

open Runs Sweep Table Datagram
open Tcp (Events)

set_option autoImplicit false

/-! ## Each event once -/

def Out.reports : Out → Option (List Pointer)
  | .reported ps => some ps
  | _ => none

def Out.handled : Out → Option Pointer
  | .event p => some p
  | _ => none

def batchesOf (tr : List Out) : List (List Pointer) := tr.filterMap Out.reports

def handledOf (tr : List Out) : List Pointer := tr.filterMap Out.handled

/-- The events of the batch that are still to come. -/
def Thread.ahead (s : Thread) : List Pointer :=
  match s.phase with
  | .batch rest | .readingTun _ rest | .readingUdp _ _ rest => rest.map Ready.pointer
  | _ => []

def Thread.readsTun (s : Thread) : Bool :=
  match s.phase with
  | .readingTun _ _ => true
  | _ => false

/-- The events of a run that are left: those ahead while the loop goes on, and behind its end
those of the last batch that were behind the pipe, or behind a failure of tun. -/
structure InOrder (s : Thread) (tr : List Out) (left : List Pointer) : Prop where
  all : handledOf tr ++ left = (batchesOf tr).flatten
  last : left <:+ (batchesOf tr).getLast?.getD []
  ahead : s.phase ≠ .ended → left = s.ahead
  lost : s.phase = .ended → left ≠ [] → (handledOf tr).getLast? = some .pipe ∨
    (handledOf tr).getLast? = some .tun

/-- What a step can do with the events: nothing, handle the first one ahead, end the loop at
the pipe, in tun or in `epoll_wait`, or get new ones. -/
inductive Moves (s t : Thread) (outs : List Out) : Prop where
  | stays (handled : handledOf outs = []) (batches : batchesOf outs = [])
      (ahead : t.ahead = s.ahead)
      (phase : t.phase ≠ .ended) (reading : t.readsTun = true → s.readsTun = true)
  | handles (p : Pointer) (rest : List Pointer) (first : s.ahead = p :: rest)
      (handled : handledOf outs = [p])
      (batches : batchesOf outs = []) (ahead : t.ahead = rest) (phase : t.phase ≠ .ended)
      (reading : t.readsTun = true → p = .tun)
  | stops (rest : List Pointer) (first : s.ahead = .pipe :: rest)
      (handled : handledOf outs = [.pipe])
      (batches : batchesOf outs = []) (phase : t.phase = .ended)
  | fails (reading : s.readsTun = true) (quiet : outs = []) (phase : t.phase = .ended)
  | givesUp (none : s.ahead = []) (quiet : outs = []) (phase : t.phase = .ended)
  | reports (ps : List Pointer) (none : s.ahead = []) (reported : outs = [.reported ps])
      (ahead : t.ahead = ps)
      (phase : t.phase ≠ .ended) (reading : t.readsTun = false)

section

variable {s : Thread}

theorem table_quiet (outs : List Table.Out) :
    handledOf (outs.map Out.table) = [] ∧ batchesOf (outs.map Out.table) = [] := by
  induction outs with
  | nil => exact ⟨rfl, rfl⟩
  | cons o outs ih => exact ih

theorem handledOf_append (xs ys : List Out) : handledOf (xs ++ ys) = handledOf xs ++ handledOf ys :=
  List.filterMap_append

theorem batchesOf_append (xs ys : List Out) : batchesOf (xs ++ ys) = batchesOf xs ++ batchesOf ys :=
  List.filterMap_append

theorem proceed_moved (rest : List Ready) (t : Thread) :
    (t.proceed rest).ahead = rest.map Ready.pointer ∧ (t.proceed rest).phase ≠ .ended ∧
    (t.proceed rest).readsTun = false := by
  cases rest with
  | nil => exact ⟨rfl, by simp [Thread.proceed], rfl⟩
  | cons r rest => exact ⟨rfl, by simp [Thread.proceed], rfl⟩

/-- A step that ends the handling of an event. -/
theorem moves_proceed {rest : List Ready} (hs : s.ahead = rest.map Ready.pointer) (t : Thread)
    {outs : List Out} (hhandled : handledOf outs = []) (hbatches : batchesOf outs = []) :
    Moves s (t.proceed rest) outs := by
  obtain ⟨hahead, hphase, hreading⟩ := proceed_moved rest t
  exact .stays hhandled hbatches (hahead.trans hs.symm) hphase fun h => by
    rw [hreading] at h; cases h

theorem loopTop_moves (c : Config) (ms : Int) (monitor : Nat → Tcp.MonitorEnv)
    (check : Nat → CheckAnswer) (hphase : s.phase = .top) :
    Moves s (loopTop c ms monitor check s).1 (loopTop c ms monitor check s).2 := by
  have hahead : s.ahead = [] := by rw [Thread.ahead, hphase]
  unfold loopTop
  simp only
  split
  · refine .stays ?_ ?_ hahead.symm (by simp) (by simp [Thread.readsTun])
    · rw [handledOf_append, Thread.tableStep, Thread.tableStep, (table_quiet _).1,
        (table_quiet _).1]
      rfl
    · rw [batchesOf_append, Thread.tableStep, Thread.tableStep, (table_quiet _).2,
        (table_quiet _).2]
      rfl
  · exact .stays (table_quiet _).1 (table_quiet _).2 hahead.symm (by simp)
      (by simp [Thread.readsTun])

theorem epollWait_moves (a : WaitAnswer) (hphase : s.phase = .waiting) :
    Moves s (epollWait a s).1 (epollWait a s).2 := by
  have hahead : s.ahead = [] := by rw [Thread.ahead, hphase]
  cases a with
  | interrupted =>
    exact .stays rfl rfl hahead.symm (by simp [epollWait]) (by simp [epollWait, Thread.readsTun])
  | failed => exact .givesUp hahead rfl rfl
  | ready evs =>
    obtain ⟨hnext, hgoes, hreading⟩ := proceed_moved evs s
    exact .reports _ hahead rfl hnext hgoes hreading

/-- The handling of an event of a session has begun, or is done. -/
theorem checkSocket_moved (c : Config) (name : Nat) (ev : Events) (rest : List Ready)
    (e : SocketEnv) (t : Tcp.SocketEnv) :
    (checkSocket c name ev rest e t s).1.ahead = rest.map Ready.pointer ∧
      (checkSocket c name ev rest e t s).1.phase ≠ .ended ∧
      (checkSocket c name ev rest e t s).1.readsTun = false ∧
      handledOf (checkSocket c name ev rest e t s).2 = [] ∧
      batchesOf (checkSocket c name ev rest e t s).2 = [] := by
  have hproceed (t : Thread) {outs : List Out} (houts : handledOf outs = [] ∧ batchesOf outs = []) :
      (t.proceed rest).ahead = rest.map Ready.pointer ∧ (t.proceed rest).phase ≠ .ended ∧
        (t.proceed rest).readsTun = false ∧ handledOf outs = [] ∧ batchesOf outs = [] := by
    obtain ⟨hahead, hphase, hreading⟩ := proceed_moved rest t
    exact ⟨hahead, hphase, hreading, houts⟩
  unfold checkSocket
  split
  · exact hproceed s ⟨rfl, rfl⟩
  · split
    · exact hproceed s ⟨rfl, rfl⟩
    · split
      · exact ⟨rfl, by simp, rfl, rfl, rfl⟩
      · exact hproceed _ (table_quiet _)

theorem nextEvent_moves (c : Config) (r : Ready) (rest : List Ready) (e : SocketEnv)
    (t : Tcp.SocketEnv) (hphase : s.phase = .batch (r :: rest)) :
    Moves s (nextEvent c r rest e t s).1 (nextEvent c r rest e t s).2 := by
  have hahead : s.ahead = r.pointer :: rest.map Ready.pointer := by
    rw [Thread.ahead, hphase]
    rfl
  unfold nextEvent dispatch
  cases hr : r.pointer with
  | pipe =>
    rw [hr] at hahead
    exact .stops _ hahead rfl rfl rfl
  | tun =>
    rw [hr] at hahead
    exact .handles .tun _ hahead rfl rfl rfl (by simp) fun _ => rfl
  | session name =>
    rw [hr] at hahead
    obtain ⟨hnext, hgoes, hreading, hhandled, hbatches⟩ :=
      checkSocket_moved (s := s) c name r.ev rest e t
    refine .handles (.session name) _ hahead ?_ hbatches hnext hgoes fun h => ?_
    · exact congrArg (.session name :: ·) hhandled
    · rw [hreading] at h
      cases h

theorem checkTun_moves (c : Config) (ev : Events) (rest : List Ready) (a : Option TunAnswer)
    (hphase : s.phase = .readingTun ev rest) :
    Moves s (checkTun c ev rest a s).1 (checkTun c ev rest a s).2 := by
  have hahead : s.ahead = rest.map Ready.pointer := by rw [Thread.ahead, hphase]
  have hreads : s.readsTun = true := by rw [Thread.readsTun, hphase]
  have hgoes : s.phase ≠ .ended := by rw [hphase]; simp
  have hstay : Moves s s [] := .stays rfl rfl rfl hgoes id
  unfold checkTun
  split
  · exact moves_proceed hahead s rfl rfl
  · split
    · exact .fails hreads rfl rfl
    · split
      · split
        · exact hstay
        · exact .fails hreads rfl rfl
        · rename_i e p added
          have hwatch : ((s.tableStep c (.packet e p)).1.watch added s.loop.next).phase = s.phase :=
            (watch_phase added s.loop.next (s.tableStep c (.packet e p)).1).2
          refine .stays (table_quiet _).1 (table_quiet _).2 ?_ (hwatch ▸ hgoes) fun _ => hreads
          rw [Thread.ahead, hwatch]
          rfl
      · exact hstay

theorem readUdp_moves (c : Config) (name : Nat) (ev : Events) (rest : List Ready)
    (a : Option (SocketEnv × Tcp.SocketEnv)) (hphase : s.phase = .readingUdp name ev rest) :
    Moves s (readUdp c name ev rest a s).1 (readUdp c name ev rest a s).2 := by
  have hahead : s.ahead = rest.map Ready.pointer := by rw [Thread.ahead, hphase]
  unfold readUdp
  split
  · split
    · exact moves_proceed hahead s rfl rfl
    · split
      · exact moves_proceed hahead s rfl rfl
      · split
        · exact moves_proceed hahead s rfl rfl
        · refine .stays (table_quiet _).1 (table_quiet _).2 rfl ?_ id
          show s.phase ≠ .ended
          rw [hphase]
          simp
  · exact moves_proceed hahead s rfl rfl

theorem handleEvents_moves (c : Config) (a : Answer) (hs : s.phase ≠ .ended) :
    Moves s (handleEvents c s a).1 (handleEvents c s a).2 := by
  unfold handleEvents
  split
  · exact loopTop_moves c _ _ _ ‹_›
  · exact epollWait_moves _ ‹_›
  · exact nextEvent_moves c _ _ _ _ ‹_›
  · exact checkTun_moves c _ _ _ ‹_›
  · exact readUdp_moves c _ _ _ _ ‹_›
  · exact .stays rfl rfl rfl hs id

/-- The order, and behind it that the event of tun is the last one while tun is read. -/
structure Tracked (s : Thread) (tr : List Out) (left : List Pointer) :
    Prop extends InOrder s tr left where
  reading : s.readsTun = true → (handledOf tr).getLast? = some .tun

theorem Tracked.step (c : Config) {tr : List Out} {left : List Pointer} (h : Tracked s tr left)
    (a : Answer) :
    ∃ left', Tracked (handleEvents c s a).1 (tr ++ (handleEvents c s a).2) left' := by
  by_cases hended : s.phase = .ended
  · have hstay : handleEvents c s a = (s, []) := by simp [handleEvents, hended]
    rw [hstay, List.append_nil]
    exact ⟨left, h⟩
  have hleft := h.ahead hended
  cases handleEvents_moves c a hended with
  | stays hhandled hbatches hahead hphase hreading =>
    refine ⟨left,
      ⟨⟨?_, ?_, fun _ => hleft.trans hahead.symm, fun h => absurd h hphase⟩, fun hreads => ?_⟩⟩
    · rw [handledOf_append, batchesOf_append, hhandled, hbatches, List.append_nil,
        List.append_nil, h.all]
    · rw [batchesOf_append, hbatches, List.append_nil]
      exact h.last
    · rw [handledOf_append, hhandled, List.append_nil]
      exact h.reading (hreading hreads)
  | handles p rest hfirst hhandled hbatches hahead hphase hreading =>
    rw [hfirst] at hleft
    refine ⟨rest, ⟨⟨?_, ?_, fun _ => hahead.symm, fun h => absurd h hphase⟩, fun hreads => ?_⟩⟩
    · rw [handledOf_append, batchesOf_append, hhandled, hbatches, List.append_nil,
        List.append_assoc, ← h.all, hleft]
      rfl
    · rw [batchesOf_append, hbatches, List.append_nil]
      exact (List.suffix_cons p rest).trans (hleft ▸ h.last)
    · rw [handledOf_append, hhandled, hreading hreads]
      simp
  | stops rest hfirst hhandled hbatches hphase =>
    rw [hfirst] at hleft
    refine ⟨rest, ⟨⟨?_, ?_, fun h => absurd hphase h, fun _ _ => .inl ?_⟩, fun hreads => ?_⟩⟩
    · rw [handledOf_append, batchesOf_append, hhandled, hbatches, List.append_nil,
        List.append_assoc, ← h.all, hleft]
      rfl
    · rw [batchesOf_append, hbatches, List.append_nil]
      exact (List.suffix_cons .pipe rest).trans (hleft ▸ h.last)
    · rw [handledOf_append, hhandled]
      simp
    · simp [Thread.readsTun, hphase] at hreads
  | fails hreads hquiet hphase =>
    rw [hquiet, List.append_nil]
    refine ⟨left, ⟨⟨h.all, h.last, fun h => absurd hphase h, fun _ _ => .inr (h.reading hreads)⟩,
      fun hreads => ?_⟩⟩
    simp [Thread.readsTun, hphase] at hreads
  | givesUp hnone hquiet hphase =>
    rw [hquiet, List.append_nil]
    refine ⟨left, ⟨⟨h.all, h.last, fun h => absurd hphase h,
      fun _ hne => absurd (hleft.trans hnone) hne⟩, fun hreads => ?_⟩⟩
    simp [Thread.readsTun, hphase] at hreads
  | reports ps hnone hreported hahead hphase hreading =>
    have hall := h.all
    rw [hleft.trans hnone, List.append_nil] at hall
    rw [hreported]
    refine ⟨ps, ⟨⟨?_, ?_, fun _ => hahead.symm, fun h => absurd h hphase⟩, fun hreads => ?_⟩⟩
    · rw [handledOf_append, batchesOf_append, List.flatten_append, ← hall]
      simp [handledOf, batchesOf, Out.handled, Out.reports]
    · rw [batchesOf_append]
      simp [batchesOf, Out.reports]
    · rw [hreading] at hreads
      cases hreads

end

/-- An event for a session, with what the outside answers while it is handled; a UDP socket is
read until it is empty. -/
structure Handling where
  name : Nat
  ev : Events
  e : SocketEnv
  t : Tcp.SocketEnv
  reads : List (SocketEnv × Tcp.SocketEnv)

namespace Handling

def ready (h : Handling) : Ready := ⟨.session h.name, h.ev⟩

def answers (h : Handling) : List Answer :=
  .event h.e h.t :: (h.reads.map (fun a => .udp (some a)) ++ [.udp none])

/-- What the session hears, if it is one of UDP or not. -/
def inputs (h : Handling) (udp : Bool) : List Input :=
  if udp then
    if !h.ev.err && h.ev.inn then
      h.reads.map fun a => .socket h.name { a.1 with ev := h.ev } { a.2 with ev := h.ev }
    else []
  else [.socket h.name { h.e with ev := h.ev } { h.t with ev := h.ev }]

end Handling

/-- `epoll_wait` reports the events, and they are handled. -/
def batchOf (hs : List Handling) : List Answer :=
  .wait (.ready (hs.map Handling.ready)) :: hs.flatMap Handling.answers

/-- An event on a socket, for the session that it names. -/
def eventOf : Input → Option Nat
  | .socket name _ _ => some name
  | _ => none

/-- The inputs are events for the session. -/
def EventsFor (name : Nat) (is : List Input) : Prop := ∀ i ∈ is, eventOf i = some name

theorem socket_commutes (c : Config) (l : Loop) {i j : Input} {a b : Nat} (hi : eventOf i = some a)
    (hj : eventOf j = some b) (hab : a ≠ b) : Interleaving.Commutes (step c) l i j := by
  cases i with
  | socket a' e t =>
    cases j with
    | socket b' e' t' =>
      cases hi
      cases hj
      have hname : ∀ (e : SocketEnv) (t : Tcp.SocketEnv), ∀ x ∈ l.table, ∀ y,
        (socketVisit c.abi e t x).1 = some y →
          y.name = x.name := fun e t x _ => socketVisit_name c.abi e t x
      obtain ⟨htable, houts⟩ := sweep_only_swap Entry.name hab (hname e t) (hname e' t')
      obtain ⟨-, houts'⟩ := sweep_only_swap Entry.name (Ne.symm hab) (hname e' t') (hname e t)
      simp only [Interleaving.Commutes, step, Loop.pass, htable, houts, houts', List.filter_filter,
        Bool.and_comm, true_and]
      exact List.perm_append_comm
    | monitor | check | packet | allowed | clear => cases hj
  | monitor | check | packet | allowed | clear => cases hi

/-- An event leaves the other sessions as they are. -/
theorem step_find_other (c : Config) {l : Loop} (h : Named l) {i : Input} {a n : Nat}
    (hi : eventOf i = some a) (hne : a ≠ n) :
    (step c l i).1.find n = l.find n := by
  cases i with
  | socket name e t =>
    obtain rfl : name = a := Option.some.inj hi
    have hboth : (step c l (.socket name e t)).1.find n =
        (l.find n).bind fun z => (only Entry.name name (socketVisit c.abi e t) z).1 :=
      find?_sweep h.unique fun z _ => (socketVisit_name c.abi e t z).only
    rw [hboth]
    cases hfind : l.find n with
    | none => rfl
    | some z =>
      have hz : z.name = n := by simpa using List.find?_some hfind
      rw [Option.bind_some, only, if_neg (by rw [hz]; exact Ne.symm hne)]
  | monitor | check | packet | allowed | clear => cases hi

theorem run_find_other (c : Config) {l : Loop} (h : Named l) {is : List Input} {a n : Nat}
    (his : EventsFor a is) (hne : a ≠ n) :
    (run (step c) l is).1.find n = l.find n := by
  induction is generalizing l with
  | nil => rfl
  | cons i is ih =>
    obtain ⟨hi, his⟩ := List.forall_mem_cons.mp his
    rw [run_cons, ih (step_named c h i) his, step_find_other c h hi hne]

/-- The session is one of UDP. -/
def readsUdp (l : Loop) (name : Nat) : Bool := (l.find name).any fun x => isUdp x.session

/-- The thread takes the inputs to its table. -/
structure Does (c : Config) (s : Thread) (is : List Input) (r : Thread × List Out) : Prop where
  loop : r.1.loop = (run (step c) s.loop is).1
  watched :
    r.1.watched = s.watched.filter (·.1 ∉ (run (step c) s.loop is).2.filterMap Table.Out.closes)
  lastCheck : r.1.lastCheck = s.lastCheck
  outs : r.2.filterMap Out.tableOf = (run (step c) s.loop is).2

section

variable {c : Config} {s : Thread}

theorem does_nothing {t : Thread} {outs : List Out}
    (ht : t.loop = s.loop ∧ t.watched = s.watched ∧ t.lastCheck = s.lastCheck)
    (houts : outs.filterMap Out.tableOf = []) : Does c s [] (t, outs) :=
  ⟨ht.1, by rw [ht.2.1]; simp, ht.2.2, houts⟩

theorem Does.append {is js : List Input} {r r' : Thread × List Out} (h : Does c s is r)
    (h' : Does c r.1 js r') :
    Does c s (is ++ js) (r'.1, r.2 ++ r'.2) := by
  have hloop := h'.loop
  have hwatched := h'.watched
  have houts := h'.outs
  rw [h.loop] at hloop hwatched houts
  constructor
  · rw [run_append]
    exact hloop
  · rw [run_append, hwatched, h.watched, List.filter_filter]
    apply List.filter_congr
    intro w _
    simp [List.filterMap_append, not_or, Bool.and_comm]
  · exact h'.lastCheck.trans h.lastCheck
  · rw [run_append, List.filterMap_append, h.outs, houts]

/-- Answers to reads that nobody waits for. -/
theorem udp_ignored (hs : ∀ name ev rest, s.phase ≠ .readingUdp name ev rest)
    (as : List (Option (SocketEnv × Tcp.SocketEnv))) :
    run (handleEvents c) s (as.map .udp) = (s, []) := by
  induction as with
  | nil => rfl
  | cons a as ih =>
    have hstay : handleEvents c s (.udp a) = (s, []) := by
      unfold handleEvents
      split
      · rename_i h; cases h
      · rename_i h; cases h
      · rename_i h; cases h
      · rename_i h; cases h
      · rename_i hphase _
        exact absurd hphase (hs _ _ _)
      · rfl
    rw [List.map_cons, run_cons, hstay, ih]
    rfl

theorem does_one {i : Input} {t : Thread} {outs : List Out}
    (ht : t.loop = (s.tableStep c i).1.loop ∧ t.watched = (s.tableStep c i).1.watched ∧
      t.lastCheck = s.lastCheck)
    (houts : outs.filterMap Out.tableOf = (step c s.loop i).2) : Does c s [i] (t, outs) := by
  obtain ⟨hloop, hwatched, hcheck⟩ := ht
  refine ⟨hloop, ?_, hcheck, by simpa using houts⟩
  rw [run_cons, run_nil, List.append_nil]
  exact hwatched

/-- The phase behind an event. -/
def phaseBehind (rest : List Ready) : Phase := if rest = [] then .top else .batch rest

theorem phaseBehind_waits (rest : List Ready) (name : Nat) (ev : Events) (rest' : List Ready) :
    phaseBehind rest ≠ .readingUdp name ev rest' := by
  unfold phaseBehind
  split <;> simp

/-- A UDP session is read until its socket is empty. -/
theorem reads_does {name : Nat} {ev : Events} {rest : List Ready} (hev : (!ev.err && ev.inn) = true)
    (reads : List (SocketEnv × Tcp.SocketEnv)) (hs : Sound s)
    (hphase : s.phase = .readingUdp name ev rest) :
    Does c s (reads.map fun a => .socket name { a.1 with ev := ev } { a.2 with ev := ev })
        (run (handleEvents c) s (reads.map (fun a => .udp (some a)) ++ [.udp none])) ∧
      (run (handleEvents c) s (reads.map (fun a => .udp (some a)) ++ [.udp none])).1.phase =
        phaseBehind rest := by
  induction reads generalizing s with
  | nil =>
    have hpending : Pending s.loop (name :: sessionsOf rest) := by
      have hp := hs.pending
      rwa [Thread.pending, hphase] at hp
    obtain ⟨x, -, hfind, -, hopen⟩ := hpending.find hs.held List.mem_cons_self
    have hstep : handleEvents c s (.udp none) = (s.proceed rest, []) := by
      simp only [handleEvents, hphase, readUdp, hev, if_true, hfind, hopen, if_false]
    show Does c s [] (run (handleEvents c) s [.udp none]) ∧
      (run (handleEvents c) s [.udp none]).1.phase = _
    rw [run_cons, run_nil, hstep]
    exact ⟨does_nothing ⟨rfl, rfl, rfl⟩ rfl, rfl⟩
  | cons a reads ih =>
    have hpending : Pending s.loop (name :: sessionsOf rest) := by
      have hp := hs.pending
      rwa [Thread.pending, hphase] at hp
    obtain ⟨x, -, hfind, -, hopen⟩ := hpending.find hs.held List.mem_cons_self
    have hstep : handleEvents c s (.udp (some a)) =
        s.tableStep c (.socket name { a.1 with ev := ev } { a.2 with ev := ev }) := by
      simp only [handleEvents, hphase, readUdp, hev, if_true, hfind, hopen, if_false]
    have hsound := (handleEvents_keeps c hs (.udp (some a)) trivial).1
    rw [hstep] at hsound
    obtain ⟨hrest, hend⟩ := ih hsound hphase
    rw [List.map_cons, List.map_cons, List.cons_append, run_cons, hstep]
    exact ⟨(does_one ⟨rfl, rfl, rfl⟩ (tableOf_table _)).append hrest, hend⟩

theorem run_sound {as : List Answer} (hs : Sound s) (has : ∀ a ∈ as, ∀ t, Contract t a) :
    Sound (run (handleEvents c) s as).1 := by
  induction as generalizing s with
  | nil => exact hs
  | cons a as ih =>
    obtain ⟨ha, has⟩ := List.forall_mem_cons.mp has
    exact ih (handleEvents_keeps c hs a (ha s)).1 has

theorem Handling.contract (h : Handling) : ∀ a ∈ h.answers, ∀ t, Contract t a := by
  intro a ha t
  rcases List.mem_cons.mp ha with rfl | ha
  · trivial
  · rcases List.mem_append.mp ha with ha | ha
    · obtain ⟨b, -, rfl⟩ := List.mem_map.mp ha
      trivial
    · obtain rfl := List.mem_singleton.mp ha
      trivial

/-- What is done for an event of a session that is there, with an open socket. -/
theorem checkSocket_found {name : Nat} (ev : Events) (rest : List Ready) (e : SocketEnv)
    (t : Tcp.SocketEnv) {x : Entry} (hfind : s.loop.find name = some x)
    (hopen : ¬ x.session.socket < 0) : checkSocket c name ev rest e t s =
      if isUdp x.session then ({ s with phase := .readingUdp name ev rest }, [])
      else ((s.tableStep c (.socket name { e with ev := ev } { t with ev := ev })).1.proceed rest,
        (s.tableStep c (.socket name { e with ev := ev } { t with ev := ev })).2) := by
  simp only [checkSocket, hfind, if_neg hopen]
  cases x.session <;> rfl

/-- Behind the event its reads are not waited for. -/
theorem reads_ignored (rest : List Ready) (hs : s.phase = phaseBehind rest)
    (reads : List (SocketEnv × Tcp.SocketEnv)) :
    run (handleEvents c) s (reads.map (fun a => .udp (some a)) ++ [.udp none]) = (s, []) := by
  have hmap : reads.map (fun a => Answer.udp (some a)) ++ [.udp none] =
      (reads.map some ++ [none]).map .udp := by simp
  rw [hmap]
  exact udp_ignored (fun name ev rest' => hs ▸ phaseBehind_waits rest name ev rest') _

/-- An event of a UDP session that is not one for reading is over with the first answer. -/
theorem reads_skipped {name : Nat} {ev : Events} {rest : List Ready}
    (hev : ¬ (!ev.err && ev.inn) = true) (reads : List (SocketEnv × Tcp.SocketEnv))
    (hphase : s.phase = .readingUdp name ev rest) :
    run (handleEvents c) s (reads.map (fun a => .udp (some a)) ++ [.udp none]) =
      (s.proceed rest, []) := by
  have hstep (a : Option (SocketEnv × Tcp.SocketEnv)) :
      handleEvents c s (.udp a) = (s.proceed rest, []) := by
    simp only [handleEvents, hphase, readUdp, hev]
    rfl
  cases reads with
  | nil =>
    rw [List.map_nil, List.nil_append, run_cons, hstep]
    rfl
  | cons a reads =>
    rw [List.map_cons, List.cons_append, run_cons, hstep, reads_ignored rest rfl]
    rfl

/-- The handling of one event. -/
theorem event_does (h : Handling) {rest : List Ready} (hs : Sound s)
    (hphase : s.phase = .batch (h.ready :: rest)) :
    Does c s (h.inputs (readsUdp s.loop h.name)) (run (handleEvents c) s h.answers) ∧
      (run (handleEvents c) s h.answers).1.phase = phaseBehind rest := by
  have hpending : Pending s.loop (h.name :: sessionsOf rest) := by
    have hp := hs.pending
    rwa [Thread.pending, hphase] at hp
  obtain ⟨x, -, hfind, -, hopen⟩ := hpending.find hs.held List.mem_cons_self
  have hkind : readsUdp s.loop h.name = isUdp x.session := by rw [readsUdp, hfind, Option.any_some]
  have hfirst : handleEvents c s (.event h.e h.t) =
      ((checkSocket c h.name h.ev rest h.e h.t s).1,
        .event (.session h.name) :: (checkSocket c h.name h.ev rest h.e h.t s).2) := by
    simp only [handleEvents, hphase]
    rfl
  rw [checkSocket_found h.ev rest h.e h.t hfind hopen] at hfirst
  have hbegun : Sound (handleEvents c s (.event h.e h.t)).1 :=
    (handleEvents_keeps c hs (.event h.e h.t) trivial).1
  rw [Handling.answers, run_cons, hkind, Handling.inputs]
  by_cases hudp : isUdp x.session = true
  · rw [if_pos hudp] at hfirst ⊢
    rw [hfirst] at hbegun ⊢
    have hnothing : Does c s []
        ({ s with phase := .readingUdp h.name h.ev rest }, [.event (.session h.name)]) :=
      does_nothing ⟨rfl, rfl, rfl⟩ rfl
    by_cases hev : (!h.ev.err && h.ev.inn) = true
    · obtain ⟨hreads, hend⟩ := reads_does (c := c) hev h.reads hbegun rfl
      rw [if_pos hev]
      exact ⟨hnothing.append hreads, hend⟩
    · rw [if_neg hev, reads_skipped hev h.reads rfl]
      exact ⟨does_nothing ⟨rfl, rfl, rfl⟩ rfl, rfl⟩
  · rw [if_neg hudp] at hfirst ⊢
    rw [hfirst, reads_ignored rest rfl]
    refine ⟨does_one ⟨rfl, rfl, rfl⟩ ?_, rfl⟩
    rw [List.append_nil]
    exact tableOf_table _

theorem Handling.inputs_events (h : Handling) (udp : Bool) : EventsFor h.name (h.inputs udp) := by
  intro i hi
  unfold Handling.inputs at hi
  split at hi
  · split at hi
    · obtain ⟨a, -, rfl⟩ := List.mem_map.mp hi
      rfl
    · cases hi
  · obtain rfl := List.mem_singleton.mp hi
    rfl

/-- The handling of a batch: each session hears its event, whatever was done for the others. -/
theorem batch_does {l : Loop} (hs : List Handling) (hnodup : (hs.map Handling.name).Nodup)
    (hsound : Sound s) (hphase : s.phase = phaseBehind (hs.map Handling.ready))
    (hsame : ∀ h ∈ hs, s.loop.find h.name = l.find h.name) :
    Does c s (hs.map fun h => h.inputs (readsUdp l h.name)).flatten
      (run (handleEvents c) s (hs.flatMap Handling.answers)) ∧
      (run (handleEvents c) s (hs.flatMap Handling.answers)).1.phase = .top := by
  induction hs generalizing s with
  | nil => exact ⟨does_nothing ⟨rfl, rfl, rfl⟩ rfl, hphase⟩
  | cons h hs ih =>
    obtain ⟨hnew, hnodup⟩ := List.nodup_cons.mp hnodup
    obtain ⟨hfind, hsame⟩ := List.forall_mem_cons.mp hsame
    obtain ⟨hdoes, hnext⟩ := event_does (c := c) h hsound hphase
    have hkind : readsUdp s.loop h.name = readsUdp l h.name := by rw [readsUdp, hfind, readsUdp]
    rw [hkind] at hdoes
    have hrest := ih hnodup (run_sound hsound h.contract) hnext fun g hg => by
      have hne : h.name ≠ g.name := fun heq => hnew (heq ▸ List.mem_map_of_mem hg)
      rw [hdoes.loop, run_find_other c hsound.held.named (h.inputs_events _) hne, hsame g hg]
    rw [List.map_cons, List.flatten_cons, List.flatMap_cons, run_append]
    exact ⟨hdoes.append hrest.1, hrest.2⟩

theorem sessionsOf_ready (hs : List Handling) :
    sessionsOf (hs.map Handling.ready) = hs.map Handling.name := by
  rw [sessionsOf, List.filterMap_map]
  exact List.filterMap_eq_map (f := Handling.name) ▸ rfl

/-- The batch as a whole, from `epoll_wait` on. -/
theorem batchOf_does {hs : List Handling} (hsound : Sound s) (hphase : s.phase = .waiting)
    (hc : Contract s (.wait (.ready (hs.map Handling.ready)))) :
    Does c s (hs.map fun h => h.inputs (readsUdp s.loop h.name)).flatten
      (run (handleEvents c) s (batchOf hs)) ∧
      (run (handleEvents c) s (batchOf hs)).1.phase = .top := by
  have hstep : handleEvents c s (.wait (.ready (hs.map Handling.ready))) =
      (s.proceed (hs.map Handling.ready),
        [.reported ((hs.map Handling.ready).map Ready.pointer)]) := by
    simp only [handleEvents, hphase, epollWait]
  have hbegun := (handleEvents_keeps c hsound _ hc).1
  rw [hstep] at hbegun
  have hnodup : (hs.map Handling.name).Nodup := by
    rw [← sessionsOf_ready]
    exact hc.1
  obtain ⟨hdoes, hend⟩ := batch_does (c := c) (l := s.loop) hs hnodup hbegun rfl fun _ _ => rfl
  have hnothing : Does c s [] (s.proceed (hs.map Handling.ready),
      [.reported ((hs.map Handling.ready).map Ready.pointer)]) :=
    does_nothing ⟨rfl, rfl, rfl⟩ rfl
  rw [batchOf, run_cons, hstep]
  exact ⟨hnothing.append hdoes, hend⟩

end

/-- Events for two different sessions. -/
def Separate (is js : List Input) : Prop := ∃ a b, a ≠ b ∧ EventsFor a is ∧ EventsFor b js

theorem Separate.symm {is js : List Input} : Separate is js → Separate js is := by
  rintro ⟨a, b, hab, his, hjs⟩
  exact ⟨b, a, hab.symm, hjs, his⟩

theorem Separate.commutes (c : Config) (l : Loop) {is js : List Input} :
    Separate is js → Interleaving.Commutes (run (step c)) l is js := by
  rintro ⟨a, b, hab, his, hjs⟩
  exact Interleaving.commutes_groups (step c)
    (fun l i hi j hj => socket_commutes c l (his i hi) (hjs j hj) hab) l

/-- The events of the sessions of a batch, in any order of the sessions. -/
theorem inputs_perm (c : Config) (l : Loop) {hs hs' : List Handling} (hperm : hs.Perm hs')
    (hnodup : (hs.map Handling.name).Nodup) (udp : Nat → Bool) :
    (run (step c) l (hs.map fun h => h.inputs (udp h.name)).flatten).1 =
        (run (step c) l (hs'.map fun h => h.inputs (udp h.name)).flatten).1 ∧
      (run (step c) l (hs.map fun h => h.inputs (udp h.name)).flatten).2.Perm
        (run (step c) l (hs'.map fun h => h.inputs (udp h.name)).flatten).2 := by
  have hpair : (hs.map fun h => h.inputs (udp h.name)).Pairwise Separate := by
    refine List.pairwise_map.mpr ((List.pairwise_map.mp hnodup).imp fun {g h} hne => ?_)
    exact ⟨g.name, h.name, hne, g.inputs_events _, h.inputs_events _⟩
  rw [← Interleaving.run_flatten, ← Interleaving.run_flatten]
  exact Interleaving.run_perm (run (step c)) (fun _ => True) (fun _ => True) Separate
    (fun _ _ => Separate.symm)
    (fun _ _ _ _ => trivial) (fun l is js _ _ _ h => h.commutes c l) (hperm.map _) l trivial
      (fun _ _ => trivial) hpair

/-- In every state in which a run of the loop waits, the events of different sessions may be
reported and handled in any order: the thread is the same behind them, and what was emitted
for the table is too, up to its order. -/
theorem batch_in_any_order (c : Config) (past : List Input)
    (hpast : Along (step c) Fresh empty past) (as : List Answer)
    (has : Along (handleEvents c) Contract (start (run (step c) empty past).1) as)
    {hs hs' : List Handling}
    (hwaiting : (run (handleEvents c) (start (run (step c) empty past).1) as).1.phase = .waiting)
    (hbatch : Contract (run (handleEvents c) (start (run (step c) empty past).1) as).1
      (.wait (.ready (hs.map Handling.ready))))
    (hperm : hs.Perm hs') :
    let s := (run (handleEvents c) (start (run (step c) empty past).1) as).1
    (run (handleEvents c) s (batchOf hs)).1 = (run (handleEvents c) s (batchOf hs')).1 ∧
      ((run (handleEvents c) s (batchOf hs)).2.filterMap Out.tableOf).Perm
        ((run (handleEvents c) s (batchOf hs')).2.filterMap Out.tableOf) := by
  intro s
  have hsound : Sound s := (run_start_keeps c past hpast as has).1
  have hnodup : (hs.map Handling.name).Nodup := by
    rw [← sessionsOf_ready]
    exact hbatch.1
  have hbatch' : Contract s (.wait (.ready (hs'.map Handling.ready))) := by
    refine ⟨?_, fun n hn => hbatch.2 n ?_⟩
    · rw [sessionsOf_ready]
      exact ((hperm.map _).nodup_iff).mp hnodup
    · rw [sessionsOf_ready] at hn ⊢
      exact (hperm.map _).mem_iff.mpr hn
  obtain ⟨hdoes, hend⟩ := batchOf_does (c := c) hsound hwaiting hbatch
  obtain ⟨hdoes', hend'⟩ := batchOf_does (c := c) hsound hwaiting hbatch'
  obtain ⟨hloop, houts⟩ := inputs_perm c s.loop hperm hnodup (readsUdp s.loop)
  constructor
  · refine Thread.ext (hdoes.loop.trans (hloop.trans hdoes'.loop.symm)) ?_
      (hdoes.lastCheck.trans hdoes'.lastCheck.symm)
      (hend.trans hend'.symm)
    rw [hdoes.watched, hdoes'.watched]
    apply List.filter_congr
    intro w _
    rw [decide_eq_decide, not_iff_not]
    exact (houts.filterMap _).mem_iff
  · rw [hdoes.outs, hdoes'.outs]
    exact houts

/-- Two UDP sessions are created, and the loop waits for their answers. -/
def twoLookups : List Answer :=
  [.top 200 (fun _ => Tcp.plainMonitor) (fun _ => answerAt 0),
    .wait (.ready [⟨.tun, ⟨true, false, false⟩⟩]), .event (datagramEvent []) Tcp.writable,
    .tun (some (.packet (plainEnv 5) (udpPacket client 4000 (server 1) 9999 [1]) true)),
    .tun (some (.packet (plainEnv 6) (udpPacket client 4001 (server 1) 53 [1]) true)), .tun none,
    .top 210 (fun _ => Tcp.plainMonitor) (fun _ => answerAt 0)]

/-- Two datagrams for the first one, and one for the second. -/
def twoAnswers : List Handling :=
  [⟨0, ⟨true, false, false⟩, datagramEvent [], Tcp.writable,
      [(datagramEvent [2], Tcp.writable), (datagramEvent [3], Tcp.writable)]⟩,
    ⟨1, ⟨true, false, false⟩, datagramEvent [], Tcp.writable, [(datagramEvent [4], Tcp.writable)]⟩]

theorem batch_in_any_order_two :
    let s := (run (handleEvents (plainConfig 10 true)) (start empty) twoLookups).1
    (run (handleEvents (plainConfig 10 true)) s (batchOf twoAnswers)).1 =
        (run (handleEvents (plainConfig 10 true)) s (batchOf twoAnswers.reverse)).1 ∧
      ((run (handleEvents (plainConfig 10 true)) s (batchOf twoAnswers)).2.filterMap
        Out.tableOf).Perm
        ((run (handleEvents (plainConfig 10 true)) s (batchOf twoAnswers.reverse)).2.filterMap
          Out.tableOf) :=
  batch_in_any_order (plainConfig 10 true) [] trivial twoLookups (by decide +kernel)
    (by decide +kernel) (by decide +kernel)
    (List.reverse_perm twoAnswers).symm

end PdaNetClient.Events
