import PdaNetClient.Descriptors
import PdaNetClient.SessionRuns

/-!
# The loop of `handle_events`

The loop in its order: the passes at its top, `epoll_wait`, and the events of the batch one
by one. An event carries the pointer that was given to epoll when the socket was added;
nothing checks that the session behind it is still there. What the kernel answers is input:
the sockets that it reports, and what each read and write gives.
-/
namespace PdaNetClient.Events

open Runs Sweep Table Datagram
open Tcp (Events)

set_option autoImplicit false

/-- The pointer of an event: that of the pipe, none for tun, or that of a session. -/
inductive Pointer where
  | pipe
  | tun
  | session (name : Nat)
  deriving DecidableEq, Repr

structure Ready where
  pointer : Pointer
  ev : Events
  deriving DecidableEq, Repr

/-- Where the thread is: at the top of the loop, in `epoll_wait`, before the next event of a
batch, and in the inner loops that read tun or a UDP socket until it is empty. -/
inductive Phase where
  | top
  | waiting
  | batch (rest : List Ready)
  | readingTun (ev : Events) (rest : List Ready)
  | readingUdp (name : Nat) (ev : Events) (rest : List Ready)
  | ended
  deriving DecidableEq, Repr

/-- `watched` are the sockets in the epoll file, with their pointers. -/
@[ext] structure Thread where
  loop : Loop
  watched : List (Int × Nat)
  lastCheck : Int
  phase : Phase
  deriving DecidableEq, Repr

inductive WaitAnswer where
  | interrupted
  | failed
  | ready (evs : List Ready)
  deriving DecidableEq, Repr

/-- What `read` gives on tun. A packet that is dropped before its handler is `retry`, and
`added` is the answer to `EPOLL_CTL_ADD`. -/
inductive TunAnswer where
  | retry
  | failed
  | packet (e : PacketEnv) (p : Packet) (added : Bool)

/-- The answers of the outside, one for each phase; `none` is a socket that is not readable. -/
inductive Answer where
  | top (ms : Int) (monitor : Nat → Tcp.MonitorEnv) (check : Nat → CheckAnswer)
  | wait (a : WaitAnswer)
  | event (e : SocketEnv) (t : Tcp.SocketEnv)
  | tun (a : Option TunAnswer)
  | udp (a : Option (SocketEnv × Tcp.SocketEnv))

/-- `reported` is what `epoll_wait` gives, `event` the handling of one event. `dangling` is an
access to a session that is not in the table, `closed` a call on the socket of a session that
has none. -/
inductive Out where
  | table (o : Table.Out)
  | reported (pointers : List Pointer)
  | event (p : Pointer)
  | dangling (name : Nat)
  | closed (name : Nat)
  deriving DecidableEq, Repr

def epollMinCheck : Int := 100

def Pointer.name : Pointer → Option Nat
  | .session name => some name
  | _ => none

/-- The sessions of the events of a batch. -/
def sessionsOf (evs : List Ready) : List Nat := evs.filterMap fun r => r.pointer.name

namespace Thread

/-- A step on the table; a socket that is closed leaves the epoll file. -/
def tableStep (c : Config) (i : Input) (s : Thread) : Thread × List Out :=
  let r := Table.step c s.loop i
  ({ s with loop := r.1, watched := s.watched.filter (·.1 ∉ r.2.filterMap Table.Out.closes) },
    r.2.map .table)

/-- Behind an event: the next one of the batch, or the top of the loop. -/
def proceed (rest : List Ready) (s : Thread) : Thread :=
  { s with phase := if rest = [] then .top else .batch rest }

/-- `EPOLL_CTL_ADD` for a session that has just been created. -/
def watch (added : Bool) (name : Nat) (s : Thread) : Thread :=
  match s.loop.find name with
  | some x => if added then { s with watched := (x.session.socket, name) :: s.watched } else s
  | none => s

end Thread

open Thread

/-- The count, the monitor, and the check if it is time. -/
def loopTop (c : Config) (ms : Int) (monitor : Nat → Tcp.MonitorEnv) (check : Nat → CheckAnswer)
    (s : Thread) :
    Thread × List Out :=
  let m := s.tableStep c (.monitor monitor)
  if ms - s.lastCheck > epollMinCheck then
    let k := m.1.tableStep c (.check check)
    ({ k.1 with lastCheck := ms, phase := .waiting }, m.2 ++ k.2)
  else ({ m.1 with phase := .waiting }, m.2)

def epollWait (a : WaitAnswer) (s : Thread) : Thread × List Out :=
  match a with
  | .interrupted => ({ s with phase := .top }, [])
  | .failed => ({ s with phase := .ended }, [])
  | .ready evs => (s.proceed evs, [.reported (evs.map Ready.pointer)])

/-- An event for the session `name`. -/
def checkSocket (c : Config) (name : Nat) (ev : Events) (rest : List Ready) (e : SocketEnv)
    (t : Tcp.SocketEnv) (s : Thread) :
    Thread × List Out :=
  match s.loop.find name with
  | none => (s.proceed rest, [.dangling name])
  | some x =>
    if x.session.socket < 0 then (s.proceed rest, [.closed name])
    else match x.session with
      | .udp _ => ({ s with phase := .readingUdp name ev rest }, [])
      | _ =>
        let r := s.tableStep c (.socket name { e with ev := ev } { t with ev := ev })
        (r.1.proceed rest, r.2)

/-- What is done for an event, by its pointer. -/
def dispatch (c : Config) (r : Ready) (rest : List Ready) (e : SocketEnv) (t : Tcp.SocketEnv)
    (s : Thread) :
    Thread × List Out :=
  match r.pointer with
  | .pipe => ({ s with phase := .ended }, [])
  | .tun => ({ s with phase := .readingTun r.ev rest }, [])
  | .session name => checkSocket c name r.ev rest e t s

def nextEvent (c : Config) (r : Ready) (rest : List Ready) (e : SocketEnv) (t : Tcp.SocketEnv)
    (s : Thread) :
    Thread × List Out :=
  let k := dispatch c r rest e t s
  (k.1, .event r.pointer :: k.2)

/-- `while (!error && is_readable(args->tun))` -/
def checkTun (c : Config) (ev : Events) (rest : List Ready) (a : Option TunAnswer)
    (s : Thread) : Thread × List Out :=
  match a with
  | none => (s.proceed rest, [])
  | some a =>
    if ev.err then ({ s with phase := .ended }, [])
    else if ev.inn then
      match a with
      | .retry => (s, [])
      | .failed => ({ s with phase := .ended }, [])
      | .packet e p added =>
        let r := s.tableStep c (.packet e p)
        (r.1.watch added s.loop.next, r.2)
    else (s, [])

/-- `while (!(events & EPOLLERR) && (events & EPOLLIN) && is_readable(session->socket))` -/
def readUdp (c : Config) (name : Nat) (ev : Events) (rest : List Ready)
    (a : Option (SocketEnv × Tcp.SocketEnv)) (s : Thread) : Thread × List Out :=
  if !ev.err && ev.inn then
    match s.loop.find name with
    | none => (s.proceed rest, [.dangling name])
    | some x =>
      if x.session.socket < 0 then (s.proceed rest, [.closed name])
      else match a with
        | none => (s.proceed rest, [])
        | some a => s.tableStep c (.socket name { a.1 with ev := ev } { a.2 with ev := ev })
  else (s.proceed rest, [])

/-- An answer to something that the thread does not wait for is not looked at. -/
def handleEvents (c : Config) : Machine Thread Answer Out := fun s a =>
  match s.phase, a with
  | .top, .top ms monitor check => loopTop c ms monitor check s
  | .waiting, .wait a => epollWait a s
  | .batch (r :: rest), .event e t => nextEvent c r rest e t s
  | .readingTun ev rest, .tun a => checkTun c ev rest a s
  | .readingUdp name ev rest, .udp a => readUdp c name ev rest a s
  | _, _ => (s, [])

/-! ## What a step leaves of the descriptors -/

section

variable {l : Loop}

/-- A pass takes a descriptor from its session only by closing it. -/
theorem pass_holds {f : Visit Entry Table.Out} (hf : ∀ x ∈ l.table, Table.Careful x (f x))
    {x : Entry} (hx : x ∈ l.table) {fd : Int} (hfd : x.holds = some fd)
    (hopen : fd ∉ (l.pass f).2.filterMap Table.Out.closes) :
    ∃ y ∈ (l.pass f).1.table, y.name = x.name ∧ y.holds = some fd := by
  have hkeeps : (f x).2.filterMap Table.Out.closes ++ ((f x).1.bind Entry.holds).toList = [fd] := by
    have hk := (hf x hx).keeps
    rwa [Keeps, hfd] at hk
  have hnot : fd ∉ (f x).2.filterMap Table.Out.closes := by
    intro hmem
    obtain ⟨o, ho, hoc⟩ := List.mem_filterMap.mp hmem
    exact hopen (List.mem_filterMap.mpr ⟨o, mem_sweep_out.mpr ⟨x, hx, ho⟩, hoc⟩)
  have hmem : fd ∈ (f x).2.filterMap Table.Out.closes ++ ((f x).1.bind Entry.holds).toList := by
    simp [hkeeps]
  have hheld := (List.mem_append.mp hmem).resolve_left hnot
  obtain ⟨y, hy, hyfd⟩ := Option.bind_eq_some_iff.mp (Option.mem_toList.mp hheld)
  exact ⟨y, mem_sweep.mpr ⟨x, hx, hy⟩, ((hf x hx).left y hy).1, hyfd⟩

theorem create_holds {r : OpenResult} {s : Nat → Session × List Table.Out} {x : Entry}
    (hx : x ∈ l.table) :
    x ∈ (l.create r s).1.table := by
  cases r with
  | failed => exact hx
  | leaked fd => exact hx
  | ok fd => exact List.mem_cons_of_mem _ hx

theorem step_holds (c : Config) (h : Held l) (i : Input) {x : Entry} (hx : x ∈ l.table) {fd : Int}
    (hfd : x.holds = some fd) (hopen : fd ∉ (step c l i).2.filterMap Table.Out.closes) :
    ∃ y ∈ (step c l i).1.table, y.name = x.name ∧ y.holds = some fd := by
  cases i with
  | monitor e =>
    exact pass_holds (l := { l with sessions := count l.table })
      (fun x hx => monitorVisit_careful (h.sound x hx) c.abi e) hx hfd hopen
  | check e => exact pass_holds (fun x hx => checkVisit_careful (h.sound x hx) _ _ e) hx hfd hopen
  | packet e p =>
    have hstay : ∃ y ∈ l.table, y.name = x.name ∧ y.holds = some fd := ⟨x, hx, rfl, hfd⟩
    revert hopen
    show fd ∉ (handleIp c e p l).2.filterMap Table.Out.closes → ∃ y ∈ (handleIp c e p l).1.table, _
    refine handleIp_cases c e p l ?_ ?_ ?_ ?_
    · exact fun _ _ => hstay
    · exact fun _ _ _ _ _ => hstay
    · intro z _ _ hopen
      refine pass_holds (fun y hy => ?_) hx hfd hopen
      refine only_cases Entry.name z.name (packetVisit c.abi e p) y ?_ ?_
      · exact careful_stay (h.sound y hy)
      · exact fun _ => packetVisit_careful (h.sound y hy) c.abi e p
    · exact fun _ _ _ _ => ⟨x, create_holds hx, rfl, hfd⟩
  | socket name e t =>
    refine pass_holds (fun y hy => ?_) hx hfd hopen
    refine only_cases Entry.name name (socketVisit c.abi e t) y ?_ ?_
    · exact careful_stay (h.sound y hy)
    · exact fun _ => socketVisit_careful (h.sound y hy) c.abi e t
  | allowed e => exact pass_holds (fun x hx => allowedVisit_careful (h.sound x hx) e) hx hfd hopen
  | clear => exact pass_holds (fun x _ => clearVisit_careful x) hx hfd hopen

/-- A packet closes nothing. -/
theorem packet_closes (c : Config) (h : Held l) (e : PacketEnv) (p : Packet) :
    (step c l (.packet e p)).2.filterMap Table.Out.closes = [] := by
  show (handleIp c e p l).2.filterMap Table.Out.closes = []
  have hvisit : ∀ x ∈ l.table, (packetVisit c.abi e p x).2.filterMap Table.Out.closes = [] := by
    intro x hx
    have hsound := h.sound x hx
    refine packetVisit_cases (motive := fun r => r.2.filterMap Table.Out.closes = []) c.abi e p
      x ?_ ?_ ?_ ?_
    · rfl
    · exact fun q s _ _ => (closes_datagram _ _).trans (forwardIcmp_leaves e.now e.send q s).closes
    · exact fun q s _ _ _ => (closes_datagram _ _).trans (forwardUdp_leaves _ q s).1.closes
    · intro q s _ hs
      rw [hs] at hsound
      exact (closes_tcp _ _).trans (Tcp.handleTcp_leaves c.abi e.tcp q.segment hsound).closes
  refine handleIp_cases c e p l ?_ ?_ ?_ ?_
  · exact fun _ => rfl
  · exact fun _ _ _ _ => rfl
  · intro z _ _
    rw [List.filterMap_eq_nil_iff]
    intro o ho
    obtain ⟨x, hx, hxo⟩ := mem_sweep_out.mp ho
    rw [only] at hxo
    split at hxo
    · exact List.filterMap_eq_nil_iff.mp (hvisit x hx) o hxo
    · cases hxo
  · intro _ _ _
    cases e.sock with
    | failed => rfl
    | leaked fd => rfl
    | ok fd => exact created_closes e l.next p fd

/-- An event on a socket closes no other socket, and none of ICMP or UDP. -/
theorem socket_closes (c : Config) (h : Held l) {x : Entry} (hx : x ∈ l.table) (e : SocketEnv)
    (t : Tcp.SocketEnv) {fd : Int}
    (hfd : fd ∈ (step c l (.socket x.name e t)).2.filterMap Table.Out.closes) :
    x.holds = some fd ∧ ∀ s, x.session ≠ .udp s := by
  obtain ⟨o, ho, hoc⟩ := List.mem_filterMap.mp hfd
  have ho : o ∈ (socketVisit c.abi e t x).2 := (mem_sweep_only_out h.named.unique hx).mp ho
  have hmem : fd ∈ (socketVisit c.abi e t x).2.filterMap Table.Out.closes :=
    List.mem_filterMap.mpr ⟨o, ho, hoc⟩
  have hkeeps := (socketVisit_careful (h.sound x hx) c.abi e t).keeps
  constructor
  · have hall : fd ∈ (socketVisit c.abi e t x).2.filterMap Table.Out.closes ++
        ((socketVisit c.abi e t x).1.bind Entry.holds).toList := List.mem_append_left _ hmem
    rw [Keeps] at hkeeps
    rw [hkeeps] at hall
    exact Option.mem_toList.mp hall
  · intro s hs
    have hnone : (socketVisit c.abi e t x).2.filterMap Table.Out.closes = [] := by
      simp only [socketVisit, hs]
      split
      · rfl
      · split
        · exact (closes_datagram _ _).trans (checkUdpSocket_leaves e s).1.closes
        · rfl
    rw [hnone] at hmem
    cases hmem

end

/-! ## The invariant -/

/-- The sessions are there, each once, with an open socket. -/
structure Pending (l : Loop) (names : List Nat) : Prop where
  nodup : names.Nodup
  there : ∀ n ∈ names, ∃ x ∈ l.table, x.name = n ∧ ∃ fd, x.holds = some fd

/-- The sessions that the thread has still to deal with in this batch. -/
def Thread.pending (s : Thread) : List Nat :=
  match s.phase with
  | .batch rest => sessionsOf rest
  | .readingTun _ rest => sessionsOf rest
  | .readingUdp name _ rest => name :: sessionsOf rest
  | _ => []

/-- The session whose socket is being read. -/
def Thread.reading (s : Thread) : Option Nat :=
  match s.phase with
  | .readingUdp name _ _ => some name
  | _ => none

def isUdp : Session → Bool
  | .udp _ => true
  | _ => false

/-- Every socket in the epoll file is that of the session it points to, and so the events
of a batch are, until they are handled. -/
structure Sound (s : Thread) : Prop where
  held : Held s.loop
  watched : ∀ w ∈ s.watched, ∃ x ∈ s.loop.table, x.name = w.2 ∧ x.holds = some w.1
  pending : Pending s.loop s.pending
  reading : ∀ n, s.reading = some n → ∀ x, s.loop.find n = some x → isUdp x.session = true

/-- What the kernel keeps to: `epoll_wait` reports sockets of the epoll file, each once,
and `socket()` returns a descriptor that is not open. -/
def Contract (s : Thread) : Answer → Prop
  | .wait (.ready evs) => (sessionsOf evs).Nodup ∧ ∀ n ∈ sessionsOf evs, n ∈ s.watched.map Prod.snd
  | .tun (some (.packet e p _)) => Fresh s.loop (.packet e p)
  | _ => True

instance (s : Thread) : (a : Answer) → Decidable (Contract s a)
  | .wait (.ready evs) =>
    inferInstanceAs
      (Decidable ((sessionsOf evs).Nodup ∧ ∀ n ∈ sessionsOf evs, n ∈ s.watched.map Prod.snd))
  | .tun (some (.packet e p _)) => inferInstanceAs (Decidable (Fresh s.loop (.packet e p)))
  | .wait .interrupted | .wait .failed | .tun none | .tun (some .retry) | .tun (some .failed) | .top
      _ _ _ | .event _ _
  | .udp _ => inferInstanceAs (Decidable True)

/-- No session is used that is not there, and no socket that is closed. -/
def Out.safe : Out → Prop
  | .dangling _ | .closed _ => False
  | _ => True

section

variable {s : Thread}

theorem Pending.tail {l : Loop} {n : Nat} {names : List Nat}
    (h : Pending l (n :: names)) : Pending l names :=
  ⟨(List.nodup_cons.mp h.nodup).2, fun m hm => h.there m (List.mem_cons_of_mem n hm)⟩

theorem pending_nil (l : Loop) : Pending l [] := ⟨List.nodup_nil, fun _ h => by cases h⟩

/-- Sessions whose sockets a step does not close are still pending behind it. -/
theorem Pending.step (c : Config) {l : Loop} (hl : Held l) {names : List Nat} (h : Pending l names)
    (i : Input)
    (hopen : ∀ x ∈ l.table, x.name ∈ names → ∀ fd, x.holds = some fd →
      fd ∉ (Table.step c l i).2.filterMap Table.Out.closes) :
    Pending (Table.step c l i).1 names := by
  refine ⟨h.nodup, fun n hn => ?_⟩
  obtain ⟨x, hx, rfl, fd, hfd⟩ := h.there n hn
  obtain ⟨y, hy, hname, hyfd⟩ := step_holds c hl i hx hfd (hopen x hx hn fd hfd)
  exact ⟨y, hy, hname, fd, hyfd⟩

/-- What a step on the table keeps, the batch apart. -/
structure KeptWatch (s : Thread) : Prop where
  held : Held s.loop
  watched : ∀ w ∈ s.watched, ∃ x ∈ s.loop.table, x.name = w.2 ∧ x.holds = some w.1

theorem Sound.kept (h : Sound s) : KeptWatch s := ⟨h.held, h.watched⟩

theorem KeptWatch.tableStep (c : Config) (h : KeptWatch s) (i : Input) (hi : Fresh s.loop i) :
    KeptWatch (s.tableStep c i).1 := by
  refine ⟨(step_kept c h.held i hi).held, fun w hw => ?_⟩
  obtain ⟨hw, hopen⟩ := List.mem_filter.mp hw
  obtain ⟨x, hx, hname, hfd⟩ := h.watched w hw
  obtain ⟨y, hy, hyname, hyfd⟩ := step_holds c h.held i hx hfd (by simpa using hopen)
  exact ⟨y, hy, hyname.trans hname, hyfd⟩

/-- A thread that reads no UDP socket. -/
theorem KeptWatch.sound (h : KeptWatch s) (hpending : Pending s.loop s.pending)
    (hreading : s.reading = none) : Sound s :=
  ⟨h.held, h.watched, hpending, fun n hn => by rw [hreading] at hn; cases hn⟩

theorem proceed_pending (rest : List Ready) (s : Thread) :
    (s.proceed rest).pending = sessionsOf rest ∧ (s.proceed rest).reading = none := by
  cases rest with
  | nil => exact ⟨rfl, rfl⟩
  | cons r rest => exact ⟨rfl, rfl⟩

theorem KeptWatch.proceed (h : KeptWatch s) {rest : List Ready}
    (hrest : Pending s.loop (sessionsOf rest)) :
    Sound (s.proceed rest) := by
  obtain ⟨hpending, hreading⟩ := proceed_pending rest s
  exact KeptWatch.sound ⟨h.held, h.watched⟩ (hpending ▸ hrest) hreading

theorem safe_table (outs : List Table.Out) : ∀ o ∈ outs.map Out.table, o.safe := by
  intro o ho
  obtain ⟨o, -, rfl⟩ := List.mem_map.mp ho
  trivial

/-- A pending session is found, with its socket. -/
theorem Pending.find {l : Loop} (hl : Held l) {names : List Nat} (h : Pending l names) {n : Nat}
    (hn : n ∈ names) :
    ∃ x ∈ l.table, l.find n = some x ∧ x.name = n ∧ ¬ x.session.socket < 0 := by
  obtain ⟨x, hx, rfl, fd, hfd⟩ := h.there n hn
  refine ⟨x, hx, find?_name hl.named.unique hx, rfl, fun hneg => ?_⟩
  have hnone : x.holds = none := if_neg (Int.not_le.mpr hneg)
  rw [hnone] at hfd
  cases hfd

/-- What a step keeps: the invariant, and nothing unsafe is done. -/
def Keeps (r : Thread × List Out) : Prop := Sound r.1 ∧ ∀ o ∈ r.2, o.safe

theorem loopTop_keeps (c : Config) (ms : Int) (monitor : Nat → Tcp.MonitorEnv)
    (check : Nat → CheckAnswer) (h : Sound s) :
    Keeps (loopTop c ms monitor check s) := by
  have hmonitor := h.kept.tableStep c (.monitor monitor) trivial
  unfold loopTop
  simp only
  split
  · have hcheck := hmonitor.tableStep c (.check check) trivial
    refine ⟨KeptWatch.sound ⟨hcheck.held, hcheck.watched⟩ (pending_nil _) rfl, fun o ho => ?_⟩
    rcases List.mem_append.mp ho with ho | ho
    · exact safe_table _ o ho
    · exact safe_table _ o ho
  · exact ⟨KeptWatch.sound ⟨hmonitor.held, hmonitor.watched⟩ (pending_nil _) rfl, safe_table _⟩

theorem epollWait_keeps (h : Sound s) {a : WaitAnswer} (hc : Contract s (.wait a)) :
    Keeps (epollWait a s) := by
  cases a with
  | interrupted =>
    exact ⟨KeptWatch.sound ⟨h.held, h.watched⟩ (pending_nil _) rfl, by simp [epollWait]⟩
  | failed => exact ⟨KeptWatch.sound ⟨h.held, h.watched⟩ (pending_nil _) rfl, by simp [epollWait]⟩
  | ready evs =>
    refine ⟨h.kept.proceed ⟨hc.1, fun n hn => ?_⟩, by simp [epollWait, Out.safe]⟩
    obtain ⟨w, hw, rfl⟩ := List.mem_map.mp (hc.2 n hn)
    obtain ⟨x, hx, hname, hfd⟩ := h.watched w hw
    exact ⟨x, hx, hname, w.1, hfd⟩

/-- An event closes at most the socket of its own session. -/
theorem Pending.socket (c : Config) {l : Loop} (hl : Held l) {x : Entry} (hx : x ∈ l.table)
    {names : List Nat} (h : Pending l (x.name :: names)) (e : SocketEnv) (t : Tcp.SocketEnv) :
    Pending (Table.step c l (.socket x.name e t)).1 names := by
  refine h.tail.step c hl _ fun y hy hyn fd hfd hclosed => ?_
  obtain ⟨hown, -⟩ := socket_closes c hl hx e t hclosed
  obtain rfl := eq_of_nodup hl.distinct hy hx hfd hown
  exact (List.nodup_cons.mp h.nodup).1 hyn

theorem checkSocket_keeps (c : Config) {name : Nat} (ev : Events) {rest : List Ready}
    (e : SocketEnv) (t : Tcp.SocketEnv) (h : KeptWatch s)
    (hpending : Pending s.loop (name :: sessionsOf rest)) :
    Keeps (checkSocket c name ev rest e t s) := by
  obtain ⟨x, hx, hfind, rfl, hopen⟩ := hpending.find h.held List.mem_cons_self
  have hsocket : Keeps
      ((s.tableStep c (.socket x.name { e with ev := ev } { t with ev := ev })).1.proceed rest,
        (s.tableStep c (.socket x.name { e with ev := ev } { t with ev := ev })).2) := by
    have hkept := h.tableStep c (.socket x.name { e with ev := ev } { t with ev := ev }) trivial
    exact ⟨hkept.proceed (hpending.socket c h.held hx _ _), safe_table _⟩
  simp only [checkSocket, hfind, hopen, if_false]
  split
  · rename_i r hr
    refine ⟨⟨h.held, h.watched, hpending, fun n hn y hy => ?_⟩, by simp⟩
    obtain rfl : x.name = n := Option.some.inj hn
    obtain rfl := Option.some.inj (hfind.symm.trans hy)
    rw [hr]
    rfl
  · exact hsocket

/-- A session that a packet has just created has a socket. -/
theorem packet_socket (c : Config) {l : Loop} (h : Held l) (e : PacketEnv) (p : Packet) {x : Entry}
    (hx : (Table.step c l (.packet e p)).1.find l.next = some x) : 0 ≤ x.session.socket := by
  rcases step_packet c l e p with ⟨fd, hcreates, -⟩ | ⟨-, hvisits⟩
  · have hfind := (step_new hcreates (picks_said _)).1
    rw [hfind] at hx
    obtain rfl := Option.some.inj hx
    show 0 ≤ (created e l.next p fd).1.socket
    rw [created_socket]
    exact Int.natCast_nonneg fd
  · have hnamed := step_named c h.named (.packet e p)
    have hlt := hnamed.next x (List.mem_of_find?_eq_some hx)
    have hname : x.name = l.next := by simpa using List.find?_some hx
    rw [hvisits.next, hname] at hlt
    exact absurd hlt (Nat.lt_irrefl _)

theorem KeptWatch.watch (h : KeptWatch s) (added : Bool) {name : Nat}
    (hsocket : ∀ x, s.loop.find name = some x → 0 ≤ x.session.socket) :
    KeptWatch (s.watch added name) := by
  unfold Thread.watch
  cases hfind : s.loop.find name with
  | none => exact h
  | some x =>
    cases added with
    | false => exact h
    | true =>
      refine ⟨h.held,
        List.forall_mem_cons.mpr ⟨⟨x, List.mem_of_find?_eq_some hfind, ?_, ?_⟩, h.watched⟩⟩
      · simpa using List.find?_some hfind
      · exact Tcp.held_of_nonneg (hsocket x hfind)

theorem watch_phase (added : Bool) (name : Nat) (s : Thread) :
    (s.watch added name).loop = s.loop ∧ (s.watch added name).phase = s.phase := by
  unfold Thread.watch
  cases s.loop.find name with
  | none => exact ⟨rfl, rfl⟩
  | some x => cases added <;> exact ⟨rfl, rfl⟩

theorem checkTun_keeps (c : Config) {ev : Events} {rest : List Ready} {a : Option TunAnswer}
    (h : Sound s) (hphase : s.phase = .readingTun ev rest) (hc : Contract s (.tun a)) :
    Keeps (checkTun c ev rest a s) := by
  have hpending : Pending s.loop (sessionsOf rest) := by
    have hp := h.pending
    rwa [Thread.pending, hphase] at hp
  have hended : Keeps ({ s with phase := .ended }, []) :=
    ⟨KeptWatch.sound ⟨h.held, h.watched⟩ (pending_nil _) rfl, by simp⟩
  have hstay : Keeps (s, []) := ⟨h, by simp⟩
  unfold checkTun
  cases a with
  | none => exact ⟨h.kept.proceed hpending, by simp⟩
  | some a =>
    simp only
    split
    · exact hended
    · split
      · cases a with
        | retry => exact hstay
        | failed => exact hended
        | packet e p added =>
          have hkept := (h.kept.tableStep c (.packet e p) hc).watch added fun x hx =>
            packet_socket c h.held e p hx
          have hleft := h.pending.step c h.held (.packet e p) fun x _ _ fd _ => by
            simp [packet_closes c h.held e p]
          obtain ⟨hloop, hwatch⟩ := watch_phase added s.loop.next (s.tableStep c (.packet e p)).1
          have hstays := hwatch.trans hphase
          refine ⟨hkept.sound ?_ ?_, safe_table _⟩
          · rw [hloop, Thread.pending, hstays]
            rw [Thread.pending, hphase] at hleft
            exact hleft
          · rw [Thread.reading, hstays]
      · exact hstay

/-- A UDP session is one behind an event on its socket. -/
theorem socket_isUdp (c : Config) {l : Loop} (h : Held l) {x : Entry}
    (hfind : l.find x.name = some x) (hudp : isUdp x.session = true) (e : SocketEnv)
    (t : Tcp.SocketEnv) {y : Entry}
    (hy : (Table.step c l (.socket x.name e t)).1.find x.name = some y) :
    isUdp y.session = true := by
  have hnamed : ∀ z ∈ l.table, KeepsName z (only Entry.name x.name (socketVisit c.abi e t) z) :=
    fun z _ => (socketVisit_name c.abi e t z).only
  have hboth : (Table.step c l (.socket x.name e t)).1.find x.name =
      (l.find x.name).bind fun z => (only Entry.name x.name (socketVisit c.abi e t) z).1 :=
    find?_sweep h.named.unique hnamed
  rw [hboth, hfind, Option.bind_some, only, if_pos rfl] at hy
  have hkey := (socketVisit_keepsKey c.abi e t x).key y hy
  cases hx : x.session <;> cases hs : y.session <;> simp_all [isUdp, Session.key]

theorem readUdp_keeps (c : Config) {name : Nat} {ev : Events} {rest : List Ready}
    (a : Option (SocketEnv × Tcp.SocketEnv)) (h : Sound s)
    (hphase : s.phase = .readingUdp name ev rest) : Keeps (readUdp c name ev rest a s) := by
  have hpending : Pending s.loop (name :: sessionsOf rest) := by
    have hp := h.pending
    rwa [Thread.pending, hphase] at hp
  have hreading : s.reading = some name := by rw [Thread.reading, hphase]
  have hdone : Keeps (s.proceed rest, []) := ⟨h.kept.proceed hpending.tail, by simp⟩
  obtain ⟨x, hx, hfind, rfl, hopen⟩ := hpending.find h.held List.mem_cons_self
  have hudp := h.reading x.name hreading x hfind
  unfold readUdp
  split
  · simp only [hfind, hopen, if_false]
    cases a with
    | none => exact hdone
    | some a =>
      have hkept :=
        h.kept.tableStep c (.socket x.name { a.1 with ev := ev } { a.2 with ev := ev }) trivial
      refine ⟨⟨hkept.held, hkept.watched, ?_, fun n hn y hy => ?_⟩, safe_table _⟩
      · refine h.pending.step c h.held _ fun y hy hyn fd hfd hclosed => ?_
        cases hs : x.session with
        | udp r => exact (socket_closes c h.held hx _ _ hclosed).2 r hs
        | icmp r => simp [hs, isUdp] at hudp
        | tcp r => simp [hs, isUdp] at hudp
      · obtain rfl : x.name = n := Option.some.inj (hreading.symm.trans hn)
        exact socket_isUdp c h.held hfind hudp _ _ hy
  · exact hdone

theorem dispatch_keeps (c : Config) {r : Ready} {rest : List Ready} (e : SocketEnv)
    (t : Tcp.SocketEnv) (h : Sound s) (hpending : Pending s.loop (sessionsOf (r :: rest))) :
    Keeps (dispatch c r rest e t s) := by
  unfold dispatch
  cases hr : r.pointer with
  | pipe => exact ⟨KeptWatch.sound ⟨h.held, h.watched⟩ (pending_nil _) rfl, by simp⟩
  | tun =>
    have hrest : sessionsOf (r :: rest) = sessionsOf rest :=
      List.filterMap_cons_none (by rw [hr]; rfl)
    rw [hrest] at hpending
    exact ⟨KeptWatch.sound ⟨h.held, h.watched⟩ hpending rfl, by simp⟩
  | session name =>
    have hrest : sessionsOf (r :: rest) = name :: sessionsOf rest :=
      List.filterMap_cons_some (by rw [hr]; rfl)
    exact checkSocket_keeps c r.ev e t h.kept (hrest ▸ hpending)

theorem handleEvents_keeps (c : Config) (h : Sound s) (a : Answer) (hc : Contract s a) :
    Keeps (handleEvents c s a) := by
  have hstay : Keeps (s, []) := ⟨h, by simp⟩
  unfold handleEvents
  split
  · exact loopTop_keeps c _ _ _ h
  · exact epollWait_keeps h hc
  · rename_i r rest e t hphase
    have hpending : Pending s.loop (sessionsOf (r :: rest)) := by
      have hp := h.pending
      rwa [Thread.pending, hphase] at hp
    obtain ⟨hsound, hsafe⟩ := dispatch_keeps c e t h hpending
    exact ⟨hsound, List.forall_mem_cons.mpr ⟨trivial, hsafe⟩⟩
  · rename_i ev rest a hphase
    exact checkTun_keeps c h hphase hc
  · rename_i name ev rest a hphase
    exact readUdp_keeps c a h hphase
  · exact hstay

end

/-! ## The table behind the loop -/

def Out.tableOf : Out → Option Table.Out
  | .table o => some o
  | _ => none

/-- The table and its outputs are those of a run of the table. -/
def RunsTable (c : Config) (l : Loop) (r : Thread × List Out) : Prop :=
  ∃ js : List Input, (∀ j ∈ js, j.looping) ∧ Along (step c) Fresh l js ∧
    r.1.loop = (run (step c) l js).1 ∧
    r.2.filterMap Out.tableOf = (run (step c) l js).2

section

variable {s : Thread}

theorem tableOf_table (outs : List Table.Out) :
    (outs.map Out.table).filterMap Out.tableOf = outs := by
  rw [List.filterMap_map]
  exact List.filterMap_some

theorem runsTable_stay (c : Config) {t : Thread} {outs : List Out} (ht : t.loop = s.loop)
    (houts : outs.filterMap Out.tableOf = []) :
    RunsTable c s.loop (t, outs) :=
  ⟨[], by simp, trivial, ht, houts⟩

theorem runsTable_one (c : Config) {i : Input} (hi : i.looping) (hfresh : Fresh s.loop i)
    {t : Thread} {outs : List Out} (ht : t.loop = (s.tableStep c i).1.loop)
    (houts : outs.filterMap Out.tableOf = (step c s.loop i).2) :
    RunsTable c s.loop (t, outs) := by
  refine ⟨[i], by simpa using hi, ⟨hfresh, trivial⟩, ht, ?_⟩
  simpa using houts

theorem loopTop_runsTable (c : Config) (ms : Int) (monitor : Nat → Tcp.MonitorEnv)
    (check : Nat → CheckAnswer) : RunsTable c s.loop (loopTop c ms monitor check s) := by
  unfold loopTop
  simp only
  split
  · refine ⟨[.monitor monitor, .check check], by simp [Input.looping],
      ⟨trivial, trivial, trivial⟩, rfl, ?_⟩
    rw [List.filterMap_append, Thread.tableStep, Thread.tableStep, tableOf_table, tableOf_table]
    simp
  · exact runsTable_one c (i := .monitor monitor) trivial trivial rfl (tableOf_table _)

theorem nextEvent_runsTable (c : Config) (r : Ready) (rest : List Ready) (e : SocketEnv)
    (t : Tcp.SocketEnv) : RunsTable c s.loop (nextEvent c r rest e t s) := by
  unfold nextEvent dispatch
  cases r.pointer with
  | pipe => exact runsTable_stay c rfl rfl
  | tun => exact runsTable_stay c rfl rfl
  | session name =>
    simp only [checkSocket]
    split
    · exact runsTable_stay c rfl rfl
    · split
      · exact runsTable_stay c rfl rfl
      · split
        · exact runsTable_stay c rfl rfl
        · exact runsTable_one c (i := .socket name { e with ev := r.ev } { t with ev := r.ev })
            trivial trivial rfl (tableOf_table _)

theorem checkTun_runsTable (c : Config) (ev : Events) (rest : List Ready) (a : Option TunAnswer)
    (hc : Contract s (.tun a)) : RunsTable c s.loop (checkTun c ev rest a s) := by
  unfold checkTun
  split
  · exact runsTable_stay c rfl rfl
  · split
    · exact runsTable_stay c rfl rfl
    · split
      · split
        · exact runsTable_stay c rfl rfl
        · exact runsTable_stay c rfl rfl
        · rename_i e p added
          exact runsTable_one c (i := .packet e p) trivial hc (watch_phase added _ _).1
            (tableOf_table _)
      · exact runsTable_stay c rfl rfl

theorem readUdp_runsTable (c : Config) (name : Nat) (ev : Events) (rest : List Ready)
    (a : Option (SocketEnv × Tcp.SocketEnv)) :
    RunsTable c s.loop (readUdp c name ev rest a s) := by
  unfold readUdp
  split
  · split
    · exact runsTable_stay c rfl rfl
    · split
      · exact runsTable_stay c rfl rfl
      · split
        · exact runsTable_stay c rfl rfl
        · rename_i a
          exact runsTable_one c (i := .socket name { a.1 with ev := ev } { a.2 with ev := ev })
            trivial trivial rfl (tableOf_table _)
  · exact runsTable_stay c rfl rfl

theorem handleEvents_runsTable (c : Config) (a : Answer) (hc : Contract s a) :
    RunsTable c s.loop (handleEvents c s a) := by
  unfold handleEvents
  split
  · exact loopTop_runsTable c _ _ _
  · rename_i a _
    cases a <;> exact runsTable_stay c rfl rfl
  · exact nextEvent_runsTable c _ _ _ _
  · exact checkTun_runsTable c _ _ _ hc
  · exact readUdp_runsTable c _ _ _ _
  · exact runsTable_stay c rfl rfl

theorem run_runsTable (c : Config) (as : List Answer) (has : Along (handleEvents c) Contract s as) :
    RunsTable c s.loop (run (handleEvents c) s as) := by
  induction as generalizing s with
  | nil => exact runsTable_stay c rfl rfl
  | cons a as ih =>
    obtain ⟨js, hjs, hfresh, hloop, houts⟩ := handleEvents_runsTable c a has.1
    obtain ⟨ks, hks, hfresh', hloop', houts'⟩ := ih has.2
    rw [hloop] at hfresh' hloop' houts'
    refine ⟨js ++ ks, ?_, (along_append _ _ _ _ _).mpr ⟨hfresh, hfresh'⟩, ?_, ?_⟩
    · exact fun j hj => (List.mem_append.mp hj).elim (hjs j) (hks j)
    · rw [run_append, run_cons]
      exact hloop'
    · rw [run_append, run_cons, List.filterMap_append, houts, houts']

end

/-! ## Runs of the loop -/

/-- A thread at the start of its loop: the epoll file is new. -/
def start (l : Loop) : Thread := ⟨l, [], 0, .top⟩

theorem start_sound {l : Loop} (h : Held l) : Sound (start l) :=
  KeptWatch.sound ⟨h, fun _ hw => by cases hw⟩ (pending_nil l) rfl

/-- The invariant holds along every run, on whatever table an earlier one has left. -/
theorem run_start_keeps (c : Config) (past : List Input) (hpast : Along (step c) Fresh empty past)
    (as : List Answer)
    (has : Along (handleEvents c) Contract (start (run (step c) empty past).1) as) :
    Keeps (run (handleEvents c) (start (run (step c) empty past).1) as) := by
  have hempty : Held empty := ⟨by simp [empty], by simp [empty], by simp [empty], empty_named⟩
  have hheld : Held (run (step c) empty past).1 :=
    run_invariant (step c) Fresh (fun l _ => Held l) (fun _ _ i hl hi => (step_kept c hl i hi).held)
      past empty hempty hpast
  exact run_invariant (handleEvents c) Contract (fun s tr => Sound s ∧ ∀ o ∈ tr, o.safe)
    (fun s tr a hs hc => by
      obtain ⟨hsound, hsafe⟩ := handleEvents_keeps c hs.1 a hc
      exact ⟨hsound, fun o ho => (List.mem_append.mp ho).elim (hs.2 o) (hsafe o)⟩)
    as _ ⟨start_sound hheld, by simp⟩ has

/-- In every run of a loop, on whatever table an earlier one has left, every event reaches
a session that is there and whose socket is open, and the table goes through a run of the
session table. -/
theorem events_reach_sessions (c : Config) (past : List Input)
    (hpast : Along (step c) Fresh empty past) (as : List Answer)
    (has : Along (handleEvents c) Contract (start (run (step c) empty past).1) as) :
    (∀ o ∈ (run (handleEvents c) (start (run (step c) empty past).1) as).2, o.safe) ∧
      RunsTable c (run (step c) empty past).1
        (run (handleEvents c) (start (run (step c) empty past).1) as) :=
  ⟨(run_start_keeps c past hpast as has).2, run_runsTable c as has⟩

/-- A TCP and a UDP session are created in one batch; in the next, the first one fails, a
third one is created, and the second is read. -/
def twoBatches : List Answer :=
  [.top 200 (fun _ => Tcp.plainMonitor) (fun _ => answerAt 0),
    .wait (.ready [⟨.tun, ⟨true, false, false⟩⟩]), .event (datagramEvent []) Tcp.writable,
    .tun (some (.packet (plainEnv 5) (tcpPacket 22 (Tcp.synPacket [])) true)),
    .tun (some (.packet (plainEnv 6) (udpPacket client 4000 (server 1) 53 [1]) true)), .tun none,
    .top 210 (fun _ => Tcp.plainMonitor) (fun _ => answerAt 0),
    .wait (.ready [⟨.session 0, ⟨false, false, true⟩⟩, ⟨.tun, ⟨true, false, false⟩⟩,
      ⟨.session 1, ⟨true, false, false⟩⟩]),
    .event (datagramEvent []) Tcp.failed, .event (datagramEvent []) Tcp.writable,
    .tun (some (.packet (plainEnv 7) (icmpPacket (server 2)) true)), .tun none,
    .event (datagramEvent []) Tcp.writable,
    .udp (some (datagramEvent [2], Tcp.writable)), .udp none]

theorem events_reach_sessions_two :
    (∀ o ∈ (run (handleEvents (plainConfig 10 true)) (start empty) twoBatches).2, o.safe) ∧
      RunsTable (plainConfig 10 true) empty
        (run (handleEvents (plainConfig 10 true)) (start empty) twoBatches) :=
  events_reach_sessions (plainConfig 10 true) [] trivial twoBatches (by decide +kernel)

end PdaNetClient.Events
