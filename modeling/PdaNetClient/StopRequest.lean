import PdaNetClient.SessionTable

/-!
# Stop requests: `jni_start`, `jni_stop` and the event threads

The calls come one after another; the steps of a call and those of the event threads come
in any order. What they share is `thread_id`, the signal pipe and the table. A byte in the
pipe is the number of the thread for which it was written.
-/
namespace PdaNetClient.Stop

open Runs

set_option autoImplicit false

/-- How far a thread is in `handle_events`; `unset` is behind `thread_id = 0`. -/
inductive Phase where
  | none
  | created
  | attached
  | looping
  | leaving
  | unset
  | ended
  deriving DecidableEq, Repr

namespace Phase

/-- `pthread_kill(t, 0) == 0` -/
def alive : Phase → Bool
  | .none | .ended => false
  | .created | .attached | .looping | .leaving | .unset => true

/-- The thread has not left the loop, or not come to it. -/
def listens : Phase → Bool
  | .created | .attached | .looping => true
  | .none | .leaving | .unset | .ended => false

/-- `thread_id` is the thread's. -/
def owns : Phase → Bool
  | .created | .attached | .looping | .leaving => true
  | .none | .unset | .ended => false

theorem owns_of_listens {p : Phase} (h : p.listens = true) : p.owns = true := by
  cases p <;> first | rfl | cases h

theorem alive_of_owns {p : Phase} (h : p.owns = true) : p.alive = true := by
  cases p <;> first | rfl | cases h

end Phase

/-- How far a call of `jni_stop` is: `thread_id` is read, the thread `t` answered, the byte
is written and the thread is joined, `clear` comes next, the table is cleared. -/
inductive Call where
  | idle
  | asked (t : Option Nat)
  | running (t : Nat)
  | joining (t : Nat)
  | joined
  | cleared
  deriving DecidableEq, Repr

/-- `next` is the number that the next thread gets. -/
structure State where
  threadId : Option Nat
  phase : Nat → Phase
  next : Nat
  pipe : List Nat
  call : Call
  sessions : Table.Loop

/-- Behind `jni_init`. -/
def initial : State := ⟨none, fun _ => .none, 0, [], .idle, Table.empty⟩

/-- `attach` is `AttachCurrentThread`, with the answers to `check_allowed` when it succeeds,
`setup` the epoll file and what is added to it, `wake` an event on the pipe, and `fail` an
epoll error, a tun error or the end of tun. -/
inductive Event where
  | attach (allowed : Option (Nat → Bool))
  | setup (ok : Bool)
  | work (i : Table.Input)
  | wake
  | fail
  | unset
  | exit

/-- `stop` takes the next step of `jni_stop`; `wrote` is only read where the byte is written. -/
inductive Input where
  | start (created : Bool)
  | stop (wrote : Bool)
  | thread (n : Nat) (e : Event)

/-- `read n b`: the thread `n` read the byte `b` and leaves the loop. -/
inductive Out where
  | read (n b : Nat)
  | table (o : Table.Out)
  | cleared
  | returned
  deriving DecidableEq, Repr

namespace State

/-- `t && pthread_kill(t, 0) == 0` -/
def answers (s : State) (t : Option Nat) : Bool := t.any fun n => (s.phase n).alive

def move (s : State) (n : Nat) (p : Phase) : State :=
  { s with phase := Function.update s.phase n p }

/-- A step on the table. -/
def tableStep (c : Table.Config) (i : Table.Input) (s : State) : State × List Out :=
  let r := Table.step c s.sessions i
  ({ s with sessions := r.1 }, r.2.map .table)

end State

/-- `pthread_create` stores `thread_id` before the thread runs. -/
def jniStart (created : Bool) (s : State) : State × List Out :=
  if s.call = .idle ∧ s.answers s.threadId = false ∧ created = true then
    ({ s.move s.next .created with threadId := some s.next, next := s.next + 1 }, [])
  else (s, [])

def jniStop (c : Table.Config) (wrote : Bool) (s : State) : State × List Out :=
  match s.call with
  | .idle => ({ s with call := .asked s.threadId }, [])
  | .asked none => ({ s with call := .idle }, [.returned])
  | .asked (some t) =>
    if (s.phase t).alive then ({ s with call := .running t }, [])
    else ({ s with call := .idle }, [.returned])
  | .running t =>
    if wrote then ({ s with pipe := s.pipe ++ [t], call := .joining t }, [])
      else ({ s with call := .joined }, [])
  | .joining t => if s.phase t = .ended then ({ s with call := .joined }, []) else (s, [])
  | .joined =>
    let r := s.tableStep c .clear
    ({ r.1 with call := .cleared }, r.2 ++ [.cleared])
  | .cleared => ({ s with call := .idle }, [.returned])

/-- What the loop does to the table. -/
def inLoop : Table.Input → Bool
  | .monitor _ | .check _ | .packet _ _ | .socket _ _ _ => true
  | .allowed _ | .clear => false

def handleEvents (c : Table.Config) (n : Nat) (e : Event) (s : State) : State × List Out :=
  match s.phase n, e with
  -- a thread that cannot attach returns with `thread_id` as it is
  | .created, .attach none => (s.move n .ended, [])
  | .created, .attach (some e) => (s.move n .attached).tableStep c (.allowed e)
  | .attached, .setup ok => (s.move n (if ok then .looping else .leaving), [])
  | .looping, .work i => if inLoop i then s.tableStep c i else (s, [])
  | .looping, .wake =>
    match s.pipe with
    | [] => (s, [])
    | b :: rest => ({ s.move n .leaving with pipe := rest }, [.read n b])
  | .looping, .fail => (s.move n .leaving, [])
  | .leaving, .unset => ({ s.move n .unset with threadId := none }, [])
  | .unset, .exit => (s.move n .ended, [])
  | _, _ => (s, [])

def step (c : Table.Config) : Machine State Input Out
  | s, .start created => jniStart created s
  | s, .stop wrote => jniStop c wrote s
  | s, .thread n e => handleEvents c n e s

/-! ## What a stop request may do -/

/-- A byte ends the thread for which it was written; `clear` closes the sockets of the
table; behind a return the pipe and the table are empty. -/
def Out.Right (s s' : State) : Out → Prop
  | .read n b => b = n
  | .table _ => True
  | .cleared => ∀ x ∈ s.sessions.table, 0 ≤ x.session.socket → x.session.socket ∉ s'.sessions.opened
  | .returned => s'.pipe = [] ∧ s'.sessions.table = []

def Right (c : Table.Config) (s : State) (i : Input) : Prop :=
  ∀ o ∈ (step c s i).2, o.Right s (step c s i).1

/-- The packet opens a session in an empty table. -/
def Opens (c : Table.Config) (l : Table.Loop) : Table.Input → Prop
  | .packet e p => Table.limited c p l = false ∧ p.starts ∧ ∃ fd, e.sock = .ok fd
  | _ => False

/-- A call that finds no thread finds no sessions, and a byte is written only for a thread
that has not left its loop. -/
def Call.Meets (s : State) (wrote : Bool) : Call → Prop
  | .asked t => s.answers t = false → s.sessions.table = []
  | .running t => wrote = true → (s.phase t).listens = true
  | .idle | .joining _ | .joined | .cleared => True

/-- The thread leaves without a look at the pipe. -/
def Event.quits : Event → Phase → Bool
  | .attach none, .created | .setup false, .attached | .fail, .looping => true
  | _, _ => false

/-- A thread leaves on its own only while the pipe is empty, and no packet opens a session
between `clear` and the return. -/
def Meets (c : Table.Config) (s : State) : Input → Prop
  | .start _ => True
  | .stop wrote => s.call.Meets s wrote
  | .thread n (.work i) => s.phase n = .looping → s.call = .cleared → ¬ Opens c s.sessions i
  | .thread n e => e.quits (s.phase n) = true → s.pipe = []

/-! ## What a step does -/

/-- A call of `jni_stop` goes on. -/
@[elab_as_elim]
theorem jniStop_cases {motive : State × List Out → Prop} (c : Table.Config)
    (wrote : Bool) (s : State)
    (begins : s.call = .idle → motive ({ s with call := .asked s.threadId }, []))
    (gone : ∀ t, s.call = .asked t → s.answers t = false →
      motive ({ s with call := .idle }, [.returned]))
    (found : ∀ t, s.call = .asked (some t) → (s.phase t).alive = true →
      motive ({ s with call := .running t }, []))
    (written : ∀ t, s.call = .running t → wrote = true →
      motive ({ s with pipe := s.pipe ++ [t], call := .joining t }, []))
    (unwritten : ∀ t, s.call = .running t → motive ({ s with call := .joined }, []))
    (waits : motive (s, []))
    (joins : ∀ t, s.call = .joining t → s.phase t = .ended →
      motive ({ s with call := .joined }, []))
    (clears : s.call = .joined →
      motive ({ (s.tableStep c .clear).1 with call := .cleared },
        (s.tableStep c .clear).2 ++ [.cleared]))
    (returns : s.call = .cleared → motive ({ s with call := .idle }, [.returned])) :
      motive (jniStop c wrote s) := by
  unfold jniStop
  split
  · rename_i hcall
    exact begins hcall
  · rename_i hcall
    exact gone none hcall rfl
  · rename_i t hcall
    split
    · rename_i halive
      exact found t hcall halive
    · rename_i halive
      exact gone (some t) hcall (by simpa [State.answers] using halive)
  · rename_i t hcall
    split
    · rename_i hwrote
      exact written t hcall hwrote
    · exact unwritten t hcall
  · rename_i t hcall
    split
    · rename_i hended
      exact joins t hcall hended
    · exact waits
  · rename_i hcall
    exact clears hcall
  · rename_i hcall
    exact returns hcall

/-- A thread goes on, or leaves on its own. -/
@[elab_as_elim]
theorem handleEvents_cases {motive : State × List Out → Prop} (c : Table.Config) (n : Nat)
    (e : Event) (s : State)
    (quits : ∀ p, e.quits (s.phase n) = true → (s.phase n).owns = true → p = .leaving ∨ p = .ended →
      motive (s.move n p, []))
    (attaches : ∀ answers, s.phase n = .created →
      motive ((s.move n .attached).tableStep c (.allowed answers)))
    (enters : s.phase n = .attached → motive (s.move n .looping, []))
    (works : ∀ i, e = .work i → s.phase n = .looping → motive (s.tableStep c i))
    (wakes : ∀ b rest, s.phase n = .looping → s.pipe = b :: rest →
      motive ({ s.move n .leaving with pipe := rest }, [.read n b]))
    (unsets : s.phase n = .leaving → motive ({ s.move n .unset with threadId := none }, []))
    (exits : s.phase n = .unset → motive (s.move n .ended, []))
    (stays : motive (s, [])) : motive (handleEvents c n e s) := by
  unfold handleEvents
  split
  · rename_i hn
    exact quits .ended (by simp [hn, Event.quits]) (by simp [hn, Phase.owns]) (.inr rfl)
  · rename_i answers hn
    exact attaches answers hn
  · rename_i ok hn
    cases ok with
    | true => exact enters hn
    | false =>
      exact quits .leaving (by simp [hn, Event.quits]) (by simp [hn, Phase.owns]) (.inl rfl)
  · rename_i i hn
    split
    · exact works i rfl hn
    · exact stays
  · rename_i hn
    split
    · exact stays
    · rename_i b rest hpipe
      exact wakes b rest hn hpipe
  · rename_i hn
    exact quits .leaving (by simp [hn, Event.quits]) (by simp [hn, Phase.owns]) (.inl rfl)
  · rename_i hn
    exact unsets hn
  · rename_i hn
    exact exits hn
  · exact stays

theorem Meets.empty {c : Table.Config} {s : State} {n : Nat} {e : Event}
    (h : Meets c s (.thread n e)) (hquits : e.quits (s.phase n) = true) : s.pipe = [] := by
  cases e with
  | work i => cases hquits
  | attach r => exact h hquits
  | setup ok => exact h hquits
  | wake => exact h hquits
  | fail => exact h hquits
  | unset => exact h hquits
  | exit => exact h hquits

/-! ## The table behind `clear` -/

theorem clear_table (c : Table.Config) (l : Table.Loop) : (Table.step c l .clear).1.table = [] := by
  apply List.eq_nil_iff_forall_not_mem.mpr
  intro y hy
  obtain ⟨x, -, hxy⟩ := Sweep.mem_sweep.mp hy
  cases hxy

theorem clear_opened (c : Table.Config) (l : Table.Loop) {x : Table.Entry} (hx : x ∈ l.table)
    (hopen : 0 ≤ x.session.socket) : x.session.socket ∉ (Table.step c l .clear).1.opened := by
  intro hmem
  have hclose : Table.Out.close x.session.socket ∈ (Sweep.sweep Table.clearVisit l.table).2 := by
    apply Sweep.mem_sweep_out.mpr
    exact ⟨x, hx, by simp [Table.clearVisit, hopen]⟩
  have hleft := of_decide_eq_true (List.mem_filter.mp hmem).2
  exact hleft (List.mem_filterMap.mpr ⟨_, hclose, rfl⟩)

theorem pass_table {l : Table.Loop} (hl : l.table = []) (f : Sweep.Visit Table.Entry Table.Out) :
    (l.pass f).1.table = [] := by
  simp [Table.Loop.pass, hl]

/-- Only a packet puts a session into an empty table. -/
theorem step_table_empty (c : Table.Config) {l : Table.Loop} (hl : l.table = []) (i : Table.Input) :
    (Table.step c l i).1.table = [] ↔ ¬ Opens c l i := by
  cases i with
  | monitor e =>
    exact iff_of_true (pass_table (l := { l with sessions := Table.count l.table }) hl _) id
  | check e => exact iff_of_true (pass_table hl _) id
  | socket name e t => exact iff_of_true (pass_table hl _) id
  | allowed e => exact iff_of_true (pass_table hl _) id
  | clear => exact iff_of_true (clear_table c l) id
  | packet e p =>
    have hnone : l.table.find? p.finds = none := by simp [hl]
    show (Table.handleIp c e p l).1.table = [] ↔ _
    refine Table.handleIp_cases c e p l ?_ ?_ ?_ ?_
    · intro hdrop
      exact iff_of_true hl fun hopens => hdrop hopens.1 hnone hopens.2.1
    · intro q _ _ hstarts
      exact iff_of_true hl fun hopens => hstarts hopens.2.1
    · intro x _ hfind
      rw [hnone] at hfind
      cases hfind
    · intro hlimit _ hstarts
      cases hsock : e.sock with
      | failed =>
        apply iff_of_true hl
        rintro ⟨-, -, fd, hfd⟩
        rw [hsock] at hfd
        cases hfd
      | leaked fd =>
        apply iff_of_true hl
        rintro ⟨-, -, fd', hfd⟩
        rw [hsock] at hfd
        cases hfd
      | ok fd =>
        apply iff_of_false
        · exact List.cons_ne_nil _ _
        · exact fun hno => hno ⟨hlimit, hstarts, fd, hsock⟩

/-! ## The invariant -/

/-- `thread_id` is that of the thread that has not reached `thread_id = 0`, a byte in the
pipe is the one that the call waits for, and its thread has not left the loop. -/
structure Sound (s : State) : Prop where
  owner : ∀ n, (s.phase n).owns = true → s.threadId = some n
  pipe : s.pipe = [] ∨ ∃ t, s.call = .joining t ∧ s.pipe = [t] ∧ (s.phase t).listens = true
  cleared : s.call = .cleared → s.sessions.table = []

theorem initial_sound : Sound initial where
  owner n h := by cases h
  pipe := .inl rfl
  cleared h := by cases h

section

variable {s : State}

theorem Sound.quiet (h : Sound s) (hcall : ∀ t, s.call ≠ .joining t) : s.pipe = [] := by
  rcases h.pipe with hpipe | ⟨t, hjoin, -⟩
  · exact hpipe
  · exact absurd hjoin (hcall t)

/-- A thread goes on, as far as it may with a byte in the pipe. -/
theorem Sound.move (h : Sound s) {n : Nat} {p : Phase}
    (howns : p.owns = true → (s.phase n).owns = true)
    (hlistens : s.pipe = [] ∨ ((s.phase n).listens = true → p.listens = true)) :
    Sound (s.move n p) where
  owner m hm := by
    by_cases hmn : m = n
    · subst hmn
      apply h.owner m
      exact howns (by simpa [State.move] using hm)
    · exact h.owner m (by simpa [State.move, Function.update_of_ne hmn] using hm)
  pipe := by
    rcases h.pipe with hpipe | ⟨t, hjoin, hpipe, ht⟩
    · exact .inl hpipe
    · refine .inr ⟨t, hjoin, hpipe, ?_⟩
      by_cases htn : t = n
      · subst htn
        have hstays := hlistens.resolve_left (by simp [hpipe]) ht
        simpa [State.move] using hstays
      · simpa [State.move, Function.update_of_ne htn] using ht
  cleared := h.cleared

theorem Sound.tableStep (h : Sound s) (c : Table.Config) (i : Table.Input)
    (hcleared : s.call = .cleared → ¬ Opens c s.sessions i) : Sound (s.tableStep c i).1 where
  owner := h.owner
  pipe := h.pipe
  cleared hcall := (step_table_empty c (h.cleared hcall) i).mpr (hcleared hcall)

/-- The next step of a call whose byte, if it wrote one, has been read. -/
theorem Sound.call (h : Sound s) (hpipe : s.pipe = []) {call : Call} (hcall : call ≠ .cleared) :
    Sound { s with call := call } where
  owner := h.owner
  pipe := .inl hpipe
  cleared := fun hcleared => absurd hcleared hcall

/-- The new thread is the only one that may still reach `thread_id = 0`. -/
theorem Sound.start (h : Sound s) (created : Bool) : Sound (jniStart created s).1 := by
  unfold jniStart
  split
  · rename_i hstart
    obtain ⟨hidle, hgone, -⟩ := hstart
    refine ⟨fun m hm => ?_, .inl (h.quiet (by simp [hidle])), fun hcall => ?_⟩
    · by_cases hm' : m = s.next
      · rw [hm']
      · have howns : (s.phase m).owns = true := by
          simpa [State.move, Function.update_of_ne hm'] using hm
        rw [h.owner m howns] at hgone
        simp [State.answers, Phase.alive_of_owns howns] at hgone
    · have hcall : s.call = .cleared := hcall
      rw [hidle] at hcall
      cases hcall
  · exact h

theorem right_table (s s' : State) (outs : List Table.Out) :
    ∀ o ∈ outs.map Out.table, o.Right s s' := by
  intro o ho
  obtain ⟨_, -, rfl⟩ := List.mem_map.mp ho
  trivial

/-- A step without outputs. -/
theorem right_nil {c : Table.Config} {i : Input} (h : (step c s i).2 = []) : Right c s i := by
  intro o ho
  rw [h] at ho
  cases ho

/-- The byte of a call that joins an ended thread has been read. -/
theorem Sound.joined (h : Sound s) {t : Nat} (hcall : s.call = .joining t)
    (hended : s.phase t = .ended) : s.pipe = [] := by
  rcases h.pipe with hpipe | ⟨t', hjoin, -, hlistens⟩
  · exact hpipe
  · rw [hcall] at hjoin
    cases hjoin
    rw [hended] at hlistens
    cases hlistens

theorem Sound.stop (h : Sound s) (c : Table.Config) {wrote : Bool}
    (hmeets : Meets c s (.stop wrote)) :
    Right c s (.stop wrote) ∧ Sound (jniStop c wrote s).1 := by
  have hmeets : s.call.Meets s wrote := hmeets
  have hquiet {call : Call} (hcall : s.call = call)
      (hjoins : ∀ t, call ≠ .joining t) : s.pipe = [] :=
    h.quiet (hcall ▸ hjoins)
  simp only [Right, step]
  refine jniStop_cases (motive := fun r => (∀ o ∈ r.2, o.Right s r.1) ∧ Sound r.1) c wrote s ?_ ?_
    ?_ ?_ ?_ ?_ ?_ ?_ ?_
  · intro hcall
    exact ⟨by simp, h.call (hquiet hcall (by simp)) (by simp)⟩
  · intro t hcall hno
    have hpipe := hquiet hcall (by simp)
    rw [hcall] at hmeets
    exact ⟨by simpa [Out.Right] using ⟨hpipe, hmeets hno⟩, h.call hpipe (by simp)⟩
  · intro t hcall _
    exact ⟨by simp, h.call (hquiet hcall (by simp)) (by simp)⟩
  · intro t hcall hwrote
    have hpipe := hquiet hcall (by simp)
    rw [hcall] at hmeets
    exact ⟨by simp, h.owner, .inr ⟨t, rfl, by simp [hpipe], hmeets hwrote⟩,
      fun hcleared => by cases hcleared⟩
  · intro t hcall
    exact ⟨by simp, h.call (hquiet hcall (by simp)) (by simp)⟩
  · exact ⟨by simp, h⟩
  · intro t hcall hended
    exact ⟨by simp, h.call (h.joined hcall hended) (by simp)⟩
  · intro hcall
    constructor
    · intro o ho
      rcases List.mem_append.mp ho with ho | ho
      · exact right_table _ _ _ o ho
      · rw [List.mem_singleton.mp ho]
        exact fun x hx hopen => clear_opened c s.sessions hx hopen
    · exact ⟨h.owner, .inl (hquiet hcall (by simp)), fun _ => clear_table c s.sessions⟩
  · intro hcall
    have hpipe := hquiet hcall (by simp)
    exact ⟨by simpa [Out.Right] using ⟨hpipe, h.cleared hcall⟩, h.call hpipe (by simp)⟩

/-- The byte that a thread reads is the last, and its own. -/
theorem Sound.wake (h : Sound s) {n b : Nat} {rest : List Nat} (hn : s.phase n = .looping)
    (hpipe : s.pipe = b :: rest) :
    b = n ∧ rest = [] := by
  rcases h.pipe with hempty | ⟨t, -, hone, ht⟩
  · rw [hpipe] at hempty
    cases hempty
  · rw [hpipe] at hone
    obtain ⟨rfl, rfl⟩ := List.cons.inj hone
    have hb := h.owner b (Phase.owns_of_listens ht)
    have hown := h.owner n (by rw [hn]; rfl)
    rw [hb] at hown
    exact ⟨Option.some.inj hown, rfl⟩

/-- `thread_id = 0` -/
theorem Sound.unset (h : Sound s) {n : Nat} (hn : s.phase n = .leaving) :
    Sound { s.move n .unset with threadId := none } := by
  have hmove : Sound (s.move n .unset) :=
    h.move (fun howns => by cases howns) (.inr fun hl => by rw [hn] at hl; cases hl)
  refine ⟨fun m hm => ?_, hmove.pipe, hmove.cleared⟩
  have hid : s.threadId = some m := hmove.owner m hm
  have hown : s.threadId = some n := h.owner n (by rw [hn]; rfl)
  have hmn : m = n := Option.some.inj (hid.symm.trans hown)
  subst hmn
  simp [State.move, Phase.owns] at hm

theorem Sound.thread (h : Sound s) (c : Table.Config) (n : Nat) (e : Event)
    (hmeets : Meets c s (.thread n e)) :
    Right c s (.thread n e) ∧ Sound (handleEvents c n e s).1 := by
  simp only [Right, step]
  have howns {p : Phase} (hn : s.phase n = p) (hp : p.owns = true) : (s.phase n).owns =
    true := hn ▸ hp
  refine handleEvents_cases (motive := fun r => (∀ o ∈ r.2, o.Right s r.1) ∧ Sound r.1) c n e s ?_
    ?_ ?_ ?_ ?_ ?_ ?_ ?_
  · intro p hquits hown _
    exact ⟨by simp, h.move (fun _ => hown) (.inl (hmeets.empty hquits))⟩
  · intro answers hn
    have hmove : Sound (s.move n .attached) := h.move (fun _ => howns hn rfl) (.inr fun _ => rfl)
    exact ⟨right_table _ _ _, hmove.tableStep c (.allowed answers) fun _ hopens => hopens⟩
  · intro hn
    exact ⟨by simp, h.move (fun _ => howns hn rfl) (.inr fun _ => rfl)⟩
  · rintro i rfl hn
    exact ⟨right_table _ _ _, h.tableStep c i (hmeets hn)⟩
  · intro b rest hn hpipe
    obtain ⟨hb, rfl⟩ := h.wake hn hpipe
    have hempty : Sound { s with pipe := [] } := ⟨h.owner, .inl rfl, h.cleared⟩
    exact ⟨by simpa [Out.Right] using hb, hempty.move (fun _ => howns hn rfl) (.inl rfl)⟩
  · intro hn
    exact ⟨by simp, h.unset hn⟩
  · intro hn
    exact ⟨by simp, h.move (fun hp => by cases hp) (.inr fun hl => by rw [hn] at hl; cases hl)⟩
  · exact ⟨by simp, h⟩

end

theorem step_sound (c : Table.Config) (s : State) (i : Input) (h : Sound s) (hmeets : Meets c s i) :
    Right c s i ∧ Sound (step c s i).1 := by
  cases i with
  | start created =>
    have hnone : (step c s (.start created)).2 = [] := by
      simp only [step, jniStart]
      split <;> rfl
    exact ⟨right_nil hnone, h.start created⟩
  | stop wrote => exact h.stop c hmeets
  | thread n e => exact h.thread c n e hmeets

/-- In every run whose steps meet the condition, a byte ends only the thread for which it was
written, and a stop request that returns leaves neither a byte nor a session. -/
theorem stop_ends (c : Table.Config) (is : List Input) (h : Along (step c) (Meets c) initial is) :
    Along (step c) (Right c) initial is :=
  along_of_invariant (step c) (Meets c) (Right c) Sound (step_sound c) is initial initial_sound h

/-! ## Nothing else is left out

From a step outside of the condition a run can go on until the property fails. -/

/-- The thread of a call was created. -/
def Known (s : State) : Prop := ∀ t, s.call = .running t → s.phase t ≠ .none

section

variable {c : Table.Config} {s : State}

/-- A thread does not touch the call, and no thread is taken back. -/
theorem handleEvents_keeps (c : Table.Config) (n : Nat) (e : Event) (s : State) :
    (handleEvents c n e s).1.call = s.call ∧ ∀ m, s.phase m ≠ .none →
    (handleEvents c n e s).1.phase m ≠ .none := by
  have hmove (p : Phase) (hp : p ≠ .none) : ∀ m, s.phase m ≠ .none →
      (s.move n p).phase m ≠ .none := by
    intro m hm
    by_cases hmn : m = n
    · subst hmn
      simpa [State.move] using hp
    · simpa [State.move, Function.update_of_ne hmn] using hm
  refine handleEvents_cases (motive := fun r => r.1.call = s.call ∧ ∀ m, s.phase m ≠ .none →
    r.1.phase m ≠ .none) c n e s
    ?_ ?_ ?_ ?_ ?_ ?_ ?_ ?_
  · rintro p _ _ (rfl | rfl)
    · exact ⟨rfl, hmove .leaving (by decide)⟩
    · exact ⟨rfl, hmove .ended (by decide)⟩
  · exact fun _ _ => ⟨rfl, hmove .attached (by decide)⟩
  · exact fun _ => ⟨rfl, hmove .looping (by decide)⟩
  · exact fun _ _ _ => ⟨rfl, fun _ hm => hm⟩
  · exact fun _ _ _ _ => ⟨rfl, hmove .leaving (by decide)⟩
  · exact fun _ => ⟨rfl, hmove .unset (by decide)⟩
  · exact fun _ => ⟨rfl, hmove .ended (by decide)⟩
  · exact ⟨rfl, fun _ hm => hm⟩

theorem Known.stop (h : Known s) (c : Table.Config) (wrote : Bool) :
    Known (jniStop c wrote s).1 := by
  refine jniStop_cases (motive := fun r => Known r.1) c wrote s ?_ ?_ ?_ ?_ ?_ ?_ ?_ ?_ ?_
  · exact fun _ _ hcall => by cases hcall
  · exact fun _ _ _ _ hcall => by cases hcall
  · intro t _ halive t' hcall hnone
    cases hcall
    have hphase : s.phase t = .none := hnone
    rw [hphase] at halive
    cases halive
  · exact fun _ _ _ _ hcall => by cases hcall
  · exact fun _ _ _ hcall => by cases hcall
  · exact h
  · exact fun _ _ _ _ hcall => by cases hcall
  · exact fun _ _ hcall => by cases hcall
  · exact fun _ _ hcall => by cases hcall

theorem Known.step (h : Known s) (i : Input) : Known (step c s i).1 := by
  cases i with
  | start created =>
    intro t hcall
    simp only [Stop.step, jniStart] at hcall ⊢
    split at hcall
    · rename_i hstart
      have hidle : s.call = .running t := hcall
      rw [hstart.1] at hidle
      cases hidle
    · rename_i hno
      rw [if_neg hno]
      exact h t hcall
  | stop wrote => exact h.stop c wrote
  | thread n e =>
    obtain ⟨hsame, hkeeps⟩ := handleEvents_keeps c n e s
    intro t hcall
    exact hkeeps t (h t (hsame ▸ hcall))

theorem not_along_of_next {i : Input} {rest : List Input}
    (h : ¬ Along (step c) (Right c) (step c s i).1 rest) :
    ¬ Along (step c) (Right c) s (i :: rest) := fun halong => h halong.2

/-- A call waits for a thread that has ended without its byte. -/
theorem ended_fails {t : Nat} (hcall : s.call = .joining t) (hpipe : s.pipe ≠ [])
    (hended : s.phase t = .ended) :
    ¬ Along (step c) (Right c) s [.stop true, .stop true, .stop true] := by
  intro halong
  have hjoined : (step c s (.stop true)).1 = { s with call := .joined } := by
    simp [step, jniStop, hcall, hended]
  have hreturns := halong.2.2.1
  rw [hjoined] at hreturns
  exact hpipe (hreturns .returned List.mem_cons_self).1

theorem left_fails {t : Nat} (hcall : s.call = .joining t) (hpipe : s.pipe ≠ [])
    (hleft : s.phase t = .leaving ∨ s.phase t = .unset ∨ s.phase t = .ended) :
    ∃ rest, ¬ Along (step c) (Right c) s rest := by
  have hmoved (s' : State) : (s'.move t .ended).phase t = .ended := by simp [State.move]
  have hexit {s' : State} (h : s'.phase t = .unset) (hcall : s'.call = .joining t)
    (hpipe : s'.pipe ≠ []) :
      ¬ Along (step c) (Right c) s' [.thread t .exit, .stop true, .stop true, .stop true] := by
    apply not_along_of_next
    simp only [step, handleEvents, h]
    exact ended_fails hcall hpipe (hmoved s')
  rcases hleft with h | h | h
  · refine ⟨.thread t .unset :: [.thread t .exit, .stop true, .stop true, .stop true],
      not_along_of_next ?_⟩
    simp only [step, handleEvents, h]
    exact hexit (by simp [State.move]) hcall hpipe
  · exact ⟨_, hexit h hcall hpipe⟩
  · exact ⟨_, ended_fails hcall hpipe h⟩

theorem Sound.waited (h : Sound s) (hpipe : s.pipe ≠ []) {n : Nat} (hn : (s.phase n).owns = true) :
    s.call = .joining n := by
  obtain ⟨t, hjoin, -, ht⟩ := h.pipe.resolve_left hpipe
  have hid := h.owner t (Phase.owns_of_listens ht)
  rw [h.owner n hn] at hid
  rw [hjoin, Option.some.inj hid]

theorem quits_moves (c : Table.Config) {n : Nat} {e : Event} (h : e.quits (s.phase n) = true) :
    (s.phase n).owns = true ∧ ((handleEvents c n e s).1 = s.move n .ended ∨
      (handleEvents c n e s).1 = s.move n .leaving) := by
  unfold Event.quits at h
  split at h
  · rename_i hn
    simp [handleEvents, hn, Phase.owns]
  · rename_i hn
    simp [handleEvents, hn, Phase.owns]
  · rename_i hn
    simp [handleEvents, hn, Phase.owns]
  · cases h

/-- A thread leaves on its own before it has read its byte. -/
theorem Sound.quits_fails (h : Sound s) {n : Nat} {e : Event} (hquits : e.quits (s.phase n) = true)
    (hpipe : s.pipe ≠ []) :
    ∃ rest, ¬ Along (step c) (Right c) s (.thread n e :: rest) := by
  obtain ⟨howns, hmoves⟩ := quits_moves c hquits
  have hcall := h.waited hpipe howns
  have hafter : ∃ rest, ¬ Along (step c) (Right c) (step c s (.thread n e)).1 rest := by
    simp only [step]
    rcases hmoves with hmove | hmove
    · rw [hmove]
      exact left_fails hcall hpipe (.inr (.inr (by simp [State.move])))
    · rw [hmove]
      exact left_fails hcall hpipe (.inl (by simp [State.move]))
  obtain ⟨rest, hrest⟩ := hafter
  exact ⟨rest, not_along_of_next hrest⟩

/-- A call finds no thread, but sessions. -/
theorem gone_fails {t : Option Nat} (hcall : s.call = .asked t) (hno : s.answers t = false)
    (htable : s.sessions.table ≠ []) (wrote : Bool) :
    ¬ Along (step c) (Right c) s [.stop wrote] := by
  intro halong
  have hreturns : step c s (.stop wrote) = ({ s with call := .idle }, [.returned]) := by
    cases t with
    | none => simp [step, jniStop, hcall]
    | some t =>
      have halive : (s.phase t).alive = false := by simpa [State.answers] using hno
      simp [step, jniStop, hcall, halive]
  have hright := halong.1
  rw [Right, hreturns] at hright
  exact htable (hright .returned List.mem_cons_self).2

/-- A byte is written for a thread that does not look at the pipe any more. -/
theorem written_fails (hknown : Known s) {t : Nat} (hcall : s.call = .running t)
    (hlistens : (s.phase t).listens ≠ true) :
    ∃ rest, ¬ Along (step c) (Right c) s (.stop true :: rest) := by
  have hleft : s.phase t = .leaving ∨ s.phase t = .unset ∨ s.phase t = .ended := by
    have hnone := hknown t hcall
    cases hphase : s.phase t <;> simp_all [Phase.listens]
  have hafter : ∃ rest, ¬ Along (step c) (Right c) (step c s (.stop true)).1 rest := by
    simp only [step, jniStop, hcall, if_true]
    exact left_fails rfl (by simp) hleft
  obtain ⟨rest, hrest⟩ := hafter
  exact ⟨rest, not_along_of_next hrest⟩

/-- A packet opens a session behind `clear`. -/
theorem Sound.opens_fails (h : Sound s) {n : Nat} {i : Table.Input} (hn : s.phase n = .looping)
    (hcall : s.call = .cleared) (hopens : Opens c s.sessions i) :
    ¬ Along (step c) (Right c) s [.thread n (.work i), .stop true] := by
  have hin : inLoop i = true := by
    cases i <;> first | rfl | cases hopens
  have htable : (Table.step c s.sessions i).1.table ≠ [] := fun hempty =>
    (step_table_empty c (h.cleared hcall) i).mp hempty hopens
  have hafter : step c s (.thread n (.work i)) = s.tableStep c i := by
    simp [step, handleEvents, hn, hin]
  have hcall' : (s.tableStep c i).1.call = .cleared := hcall
  apply not_along_of_next
  rw [hafter]
  intro halong
  have hright := halong.1
  simp only [Right, step, jniStop, hcall'] at hright
  exact htable (hright .returned List.mem_cons_self).2

/-- One step outside of the condition is enough. -/
theorem Sound.fails (h : Sound s) (hknown : Known s) {i : Input} (hi : ¬ Meets c s i) :
    ∃ rest, ¬ Along (step c) (Right c) s (i :: rest) := by
  cases i with
  | start created => exact absurd trivial hi
  | stop wrote =>
    have hi : ¬ s.call.Meets s wrote := hi
    cases hcall : s.call with
    | asked t =>
      rw [hcall] at hi
      obtain ⟨hno, htable⟩ := Classical.not_imp.mp hi
      exact ⟨[], gone_fails hcall hno htable wrote⟩
    | running t =>
      rw [hcall] at hi
      obtain ⟨rfl, hlistens⟩ := Classical.not_imp.mp hi
      exact written_fails hknown hcall hlistens
    | idle | joining t | joined | cleared =>
      rw [hcall] at hi
      exact absurd trivial hi
  | thread n e =>
    have hquits (hi : ¬ (e.quits (s.phase n) = true → s.pipe = [])) :
        ∃ rest, ¬ Along (step c) (Right c) s (.thread n e :: rest) := by
      obtain ⟨hquit, hpipe⟩ := Classical.not_imp.mp hi
      exact h.quits_fails hquit hpipe
    cases e with
    | work i =>
      simp only [Meets, Classical.not_imp, Classical.not_not] at hi
      exact ⟨[.stop true], h.opens_fails hi.1 hi.2.1 hi.2.2⟩
    | attach r => exact hquits hi
    | setup ok => exact hquits hi
    | wake => exact hquits hi
    | fail => exact hquits hi
    | unset => exact hquits hi
    | exit => exact hquits hi

end

/-- The condition of the runs leaves out no step behind which the property can no longer fail. -/
theorem meets_needed (c : Table.Config) (is : List Input) (i : Input)
    (h : Along (step c) (Meets c) initial is) (hi : ¬ Meets c (run (step c) initial is).1 i) :
    ∃ rest, ¬ Along (step c) (Right c) initial (is ++ i :: rest) := by
  have hsound : Sound (run (step c) initial is).1 :=
    run_invariant (step c) (Meets c) (fun s _ => Sound s)
      (fun s _ i hs hm => (step_sound c s i hs hm).2) is initial
      initial_sound h
  have hknown : Known (run (step c) initial is).1 :=
    run_invariant (step c) (Meets c) (fun s _ => Known s) (fun _ _ i hs _ => hs.step i) is initial
      (fun t hcall => by cases hcall) h
  obtain ⟨rest, hrest⟩ := hsound.fails hknown hi
  exact ⟨rest, fun halong => hrest ((along_append _ _ _ _ _).mp halong).2⟩

/-! ## Two threads -/

instance : (p : Table.Packet) → Decidable p.starts
  | .icmp p => inferInstanceAs (Decidable (p.type = Datagram.icmpEcho))
  | .udp _ => inferInstanceAs (Decidable True)
  | .tcp p => inferInstanceAs (Decidable (p.segment.urg = false ∧ p.segment.syn = true))

instance : (r : Table.OpenResult) → Decidable (∃ fd, r = .ok fd)
  | .ok fd => isTrue ⟨fd, rfl⟩
  | .failed | .leaked _ => isFalse fun ⟨_, h⟩ => by cases h

instance (c : Table.Config) (l : Table.Loop) : (i : Table.Input) → Decidable (Opens c l i)
  | .packet e p => inferInstanceAs (Decidable (_ ∧ p.starts ∧ ∃ fd, e.sock = .ok fd))
  | .monitor _ | .check _ | .socket _ _ _ | .allowed _ | .clear => inferInstanceAs (Decidable False)

instance (s : State) (wrote : Bool) : (call : Call) → Decidable (call.Meets s wrote)
  | .asked t => inferInstanceAs (Decidable (s.answers t = false → s.sessions.table = []))
  | .running t => inferInstanceAs (Decidable (wrote = true → (s.phase t).listens = true))
  | .idle | .joining _ | .joined | .cleared => inferInstanceAs (Decidable True)

instance (c : Table.Config) (s : State) : (i : Input) → Decidable (Meets c s i)
  | .start _ => inferInstanceAs (Decidable True)
  | .stop wrote => inferInstanceAs (Decidable (s.call.Meets s wrote))
  | .thread n (.work i) =>
    inferInstanceAs (Decidable (s.phase n = .looping → s.call = .cleared → ¬ Opens c s.sessions i))
  | .thread n (.attach r) =>
    inferInstanceAs (Decidable ((Event.attach r).quits (s.phase n) = true → s.pipe = []))
  | .thread n (.setup ok) =>
    inferInstanceAs (Decidable ((Event.setup ok).quits (s.phase n) = true → s.pipe = []))
  | .thread n .wake =>
    inferInstanceAs (Decidable (Event.wake.quits (s.phase n) = true → s.pipe = []))
  | .thread n .fail =>
    inferInstanceAs (Decidable (Event.fail.quits (s.phase n) = true → s.pipe = []))
  | .thread n .unset =>
    inferInstanceAs (Decidable (Event.unset.quits (s.phase n) = true → s.pipe = []))
  | .thread n .exit =>
    inferInstanceAs (Decidable (Event.exit.quits (s.phase n) = true → s.pipe = []))

instance (s s' : State) : (o : Out) → Decidable (o.Right s s')
  | .read n b => inferInstanceAs (Decidable (b = n))
  | .table _ => inferInstanceAs (Decidable True)
  | .cleared => inferInstanceAs
    (Decidable (∀ x ∈ s.sessions.table, 0 ≤ x.session.socket →
      x.session.socket ∉ s'.sessions.opened))
  | .returned => inferInstanceAs (Decidable (s'.pipe = [] ∧ s'.sessions.table = []))

instance (c : Table.Config) (s : State) (i : Input) : Decidable (Right c s i) :=
  inferInstanceAs (Decidable (∀ o ∈ (step c s i).2, o.Right s (step c s i).1))

/-- The thread `n` gets into its loop. -/
def begins (n : Nat) : List Input :=
  [.start true, .thread n (.attach (some fun _ => true)), .thread n (.setup true)]

/-- What is left to do for a thread that has left its loop. -/
def returns (n : Nat) : List Input := [.thread n .unset, .thread n .exit]

/-- A call of `jni_stop` that finds no thread, or its first `k` steps. -/
def stops (k : Nat) : List Input := List.replicate k (.stop true)

/-- A UDP session on the descriptor 5. -/
def opensSession (n : Nat) : Input :=
  .thread n
    (.work (.packet (Table.plainEnv 5) (Table.udpPacket Table.client 4000 (Table.server 1) 53 [1])))

/-- A thread that is stopped with a session, and one that ends by itself, with a session that
is left to the next. -/
theorem stop_ends_twice :
    Along (step (Table.plainConfig 10 true)) (Right (Table.plainConfig 10 true)) initial
      (begins 0 ++ [opensSession 0] ++ stops 3 ++ [.thread 0 .wake] ++ returns 0 ++ stops 3 ++
        begins 1 ++ [opensSession 1, .thread 1 .fail] ++ returns 1 ++ begins 2 ++ stops 3 ++
        [.thread 2 .wake] ++
        returns 2 ++ stops 3) :=
  stop_ends _ _ (by decide +kernel)

/-- The tun error comes between `pthread_kill` and `write`: the byte stays in the pipe, and
ends the next thread. And the session of a thread that ended by itself is left when the call
finds it gone. -/
theorem stop_stale :
    ¬ Along (step (Table.plainConfig 10 true)) (Right (Table.plainConfig 10 true)) initial
      (begins 0 ++ stops 2 ++ [.thread 0 .fail] ++ stops 1 ++ returns 0 ++ stops 3) ∧
    (run (step (Table.plainConfig 10 true)) initial
      (begins 0 ++ stops 2 ++ [.thread 0 .fail] ++ stops 1 ++ returns 0 ++ stops 3 ++ begins 1 ++
        [.thread 1 .wake])).2 =
        [.cleared, .returned, .read 1 0] ∧
    ¬ Along (step (Table.plainConfig 10 true)) (Right (Table.plainConfig 10 true)) initial
      (begins 0 ++ [opensSession 0, .thread 0 .fail] ++ returns 0 ++ stops 2) := by
  decide +kernel

end PdaNetClient.Stop
