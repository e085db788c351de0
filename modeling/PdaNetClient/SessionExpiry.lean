import PdaNetClient.SessionRuns
import PdaNetClient.TcpStates
import PdaNetClient.Descriptors
import PdaNetClient.PollTimeout

/-!
# Idle sessions

A session that is told nothing but passes of the loop does not stay in the table: a check
pass behind its timeout closes it, and one behind its keep time deletes it, whatever the
other sessions do. The timeouts shrink with the load, so they bound both times.
-/
namespace PdaNetClient.Table

open Runs Sweep Interleaving Datagram

set_option autoImplicit false

namespace Session

def time : Session → Int
  | .icmp s => s.time
  | .udp s => s.time
  | .tcp s => s.time

/-- The timeout of a session in an empty table. -/
def timeout : Session → Int
  | .icmp _ => icmpTimeout
  | .udp s => udpTimeout s
  | .tcp s => tcpTimeout s

theorem timeout_nonneg (s : Session) : 0 ≤ s.timeout := by
  cases s with
  | icmp s => exact (by decide : (0 : Int) ≤ icmpTimeout)
  | udp s => exact udpTimeout_nonneg s
  | tcp s => exact tcpTimeout_nonneg s

/-- An open session expires by `d`, and a closed one was closed by `t`. -/
def Awaits (d t : Int) : Session → Prop
  | .icmp s => s.time + icmpTimeout ≤ d
  | .udp s => (s.state = .active → s.time + udpTimeout s ≤ d) ∧
      (s.state = .closed ∨ s.state = .blocked → s.time ≤ t)
  | .tcp s => (¬ s.state.closed → s.time + tcpTimeout s ≤ d) ∧
      (s.state = .close → s.socket < 0 ∧ s.time ≤ t)

/-- A session that was closed by `t`; an ICMP session is deleted at once. -/
def Over (t : Int) : Session → Prop
  | .icmp _ => False
  | .udp s => (s.state = .closed ∨ s.state = .blocked) ∧ s.time ≤ t
  | .tcp s => s.state = .close ∧ s.socket < 0 ∧ s.time ≤ t

end Session

/-- A monitor or check pass, with the clock up to `t`. -/
def Told.Idle (t : Int) : Told → Prop
  | .tcp (.monitor _) => True
  | .tcp (.check e) => e.now2 ≤ t
  | .udp (.check e) => e.now2 ≤ t
  | .icmp (.check e) => e.now2 ≤ t
  | _ => False

instance (t : Int) : (k : Told) → Decidable (k.Idle t)
  | .tcp (.monitor _) => inferInstanceAs (Decidable True)
  | .tcp (.check e) => inferInstanceAs (Decidable (e.now2 ≤ t))
  | .udp (.check e) => inferInstanceAs (Decidable (e.now2 ≤ t))
  | .icmp (.check e) => inferInstanceAs (Decidable (e.now2 ≤ t))
  | .tcp (.packet _ _) | .tcp (.socket _) | .udp (.packet _ _) | .udp (.socket _) | .icmp
      (.packet _ _ _) | .icmp (.socket _) =>
    inferInstanceAs (Decidable False)

/-- A step that tells the session nothing but passes. -/
def Undisturbed (c : Config) (n : Nat) (t : Int) (l : Loop) (i : Input) : Prop :=
  ∀ s ∈ (sessionPart c n).view l, ∀ k ∈ told c n l s i, k.Idle t

instance (c : Config) (n : Nat) (t : Int) (l : Loop) (i : Input) :
    Decidable (Undisturbed c n t l i) :=
  inferInstanceAs (Decidable (∀ s ∈ (sessionPart c n).view l, ∀ k ∈ told c n l s i, k.Idle t))

/-! ## A session that only passes visit -/

section

variable {abi : Abi} {d t : Int} {s : Session} {k : Told}

theorem monitorTcp_idle (abi : Abi) (e : Tcp.MonitorEnv) (s : Tcp.Session) :
    ∃ ms st ev, (Tcp.step abi s (.monitor e)).1 =
      { s with lastKeepAlive := ms, state := st, ev := ev } ∧
      (st = s.state ∨ 0 ≤ s.socket ∧ st = .closing) := by
  simp only [Tcp.step]
  split
  · rename_i hopen
    obtain ⟨u, ev, hu, ms, st, hs, hst, -⟩ := Tcp.monitor_eq e s
    exact ⟨ms, st, ev, by rw [hu, hs], hst.imp_right fun h => ⟨hopen, h⟩⟩
  · exact ⟨s.lastKeepAlive, s.state, s.ev, rfl, .inl rfl⟩

theorem awaits_step (h : s.Awaits d t) (hk : k.Idle t) : (Session.step abi s k).1.Awaits d t := by
  cases s with
  | icmp s =>
    cases k with
    | icmp i =>
      cases i with
      | check e =>
        show (Session.icmp (checkIcmpSession e s).1).Awaits d t
        unfold checkIcmpSession
        split <;> exact h
      | packet | socket => cases hk
    | udp | tcp => exact h
  | udp s =>
    cases k with
    | udp i =>
      cases i with
      | check e =>
        show (Session.udp (checkUdpSession e s).1).Awaits d t
        refine checkUdpSession_cases e s (fun _ => h) (fun _ _ => h) (fun _ _ => h) ?_
        exact fun u _ hu _ => hu ▸ ⟨by simp, fun _ => hk⟩
      | packet | socket => cases hk
    | icmp | tcp => exact h
  | tcp s =>
    cases k with
    | tcp i =>
      cases i with
      | monitor e =>
        obtain ⟨ms, st, ev, hstep, hst⟩ := monitorTcp_idle abi e s
        show (Session.tcp (Tcp.step abi s (.monitor e)).1).Awaits d t
        rw [hstep]
        rcases hst with hst | ⟨-, hst⟩ <;> subst hst
        · exact h
        · exact ⟨by simp, by simp⟩
      | check e =>
        show (Session.tcp (Tcp.checkTcpSession e s).1).Awaits d t
        refine Tcp.checkTcpSession_cases e s (fun _ => h) (fun _ _ => h) ?_ ?_
        · exact fun fd _ u hu _ hfd =>
            hu ▸ ⟨by simp, fun _ => ⟨hfd ▸ Tcp.closedFd_neg s.socket, hk⟩⟩
        · exact fun fd _ u hu _ _ hfd =>
            hu ▸ ⟨by simp, fun _ => ⟨hfd ▸ Tcp.closedFd_neg s.socket, hk⟩⟩
      | packet | socket => cases hk
    | icmp | udp => exact h

theorem over_step (h : s.Over t) (hk : k.Idle t) : (Session.step abi s k).1.Over t := by
  cases s with
  | icmp s => cases h
  | udp s =>
    cases k with
    | udp i =>
      cases i with
      | check e =>
        show (Session.udp (checkUdpSession e s).1).Over t
        refine checkUdpSession_cases e s (fun _ => h) (fun _ _ => h) (fun _ _ => h) ?_
        exact fun u _ hu _ => hu ▸ ⟨.inl rfl, hk⟩
      | packet | socket => cases hk
    | icmp | tcp => exact h
  | tcp s =>
    obtain ⟨hclose, hsocket, htime⟩ := h
    cases k with
    | tcp i =>
      cases i with
      | monitor e =>
        -- there is no descriptor left to monitor
        have hstay : Tcp.step abi s (.monitor e) = (s, []) := if_neg (by omega)
        show (Session.tcp (Tcp.step abi s (.monitor e)).1).Over t
        rw [hstay]
        exact ⟨hclose, hsocket, htime⟩
      | check e =>
        show (Session.tcp (Tcp.checkTcpSession e s).1).Over t
        refine Tcp.checkTcpSession_cases e s (fun _ => ⟨hclose, hsocket, htime⟩)
          (fun _ _ => ⟨hclose, hsocket, htime⟩) ?_ ?_
        · exact fun fd _ u hu _ hfd => hu ▸ ⟨rfl, hfd ▸ Tcp.closedFd_neg s.socket, hk⟩
        · exact fun fd _ u hu _ _ hfd => hu ▸ ⟨rfl, hfd ▸ Tcp.closedFd_neg s.socket, hk⟩
      | packet | socket => cases hk
    | icmp | udp => exact ⟨hclose, hsocket, htime⟩

theorem keep_step (abi : Abi) (s : Session) (k : Told) :
    (Session.step abi s k).1.keep = s.keep := by
  cases s <;> cases k <;> rfl

end

/-! ## The two check passes -/

section

variable {d t : Int} {sessions maxsessions : Nat}

theorem scaleTimeout_le (base : Int) (hbase : 0 ≤ base) (hmax : 0 < maxsessions) (sessions : Nat) :
    scaleTimeout base sessions maxsessions ≤ base := by
  have hempty : scaleTimeout base ((0 : Nat) : Int) maxsessions = base := by
    simp [scaleTimeout]
  have hmono := scaleTimeout_mono hbase (Int.natCast_pos.mpr hmax) (Nat.zero_le sessions)
  rwa [hempty] at hmono

theorem checkUdp_expires (e : Datagram.CheckEnv) {s : UdpSession} (h : (Session.udp s).Awaits d t)
    (hclock : e.now2 ≤ t)
    (hexpired : s.state = .active → s.time + getUdpTimeout s e.sessions e.maxsessions < e.now) :
    (Session.udp (checkUdpSession e s).1).Over t := by
  unfold checkUdpSession expireUdp
  cases hst : s.state with
  | active => simp [hexpired hst, finishUdp, Session.Over, hclock]
  | finishing => simp [hst, finishUdp, Session.Over, hclock]
  | closed => simpa [hst, finishUdp, Session.Over] using h.2 (.inl hst)
  | blocked => simpa [hst, finishUdp, Session.Over] using h.2 (.inr hst)

theorem checkTcp_closes (e : Tcp.CheckEnv) {s : Tcp.Session} (hopen : ¬ s.state.closed)
    (hexpired : s.time + Tcp.getTcpTimeout s e.sessions e.maxsessions < e.now) :
    (Tcp.checkTcpSession e s).1.state = .close := by
  have hstate : (Tcp.expireSession e s).1.state = .closing := by
    have hne : s.state ≠ .close := fun h => hopen (.inr h)
    rw [Tcp.expireSession, if_pos ⟨hopen, hexpired⟩]
    split
    · rfl
    · simp [Tcp.writeRst, hne]
  simp [Tcp.checkTcpSession, Tcp.closeSession, hstate]

theorem checkTcp_expires (e : Tcp.CheckEnv) {s : Tcp.Session} (h : (Session.tcp s).Awaits d t)
    (hclock : e.now2 ≤ t)
    (hexpired : ¬ s.state.closed → s.time + Tcp.getTcpTimeout s e.sessions e.maxsessions < e.now) :
    (Session.tcp (Tcp.checkTcpSession e s).1).Over t := by
  have hcloses (hopen : ¬ s.state.closed) : (Tcp.checkTcpSession e s).1.state = .close :=
    checkTcp_closes e hopen (hexpired hopen)
  revert hcloses
  refine Tcp.checkTcpSession_cases e s ?_ ?_ ?_ ?_
  · exact fun hopen hcloses => absurd (.inr (hcloses hopen)) hopen
  · exact fun _ hst _ => ⟨hst, h.2 hst⟩
  · exact fun fd _ u hu _ hfd _ => hu ▸ ⟨rfl, hfd ▸ Tcp.closedFd_neg s.socket, hclock⟩
  · exact fun fd _ u hu _ _ hfd _ => hu ▸ ⟨rfl, hfd ▸ Tcp.closedFd_neg s.socket, hclock⟩

theorem deleteIf_some {del : Bool} {r : Option Entry × List Out} {y : Entry}
    (h : (deleteIf del r).1 = some y) :
    del = false ∧ r.1 = some y := by
  cases del with
  | false => exact ⟨rfl, h⟩
  | true => cases h

/-- A check pass behind the timeout deletes the session or leaves it closed. -/
theorem checkVisit_expires (hmax : 0 < maxsessions) (e : Nat → CheckAnswer) {x y : Entry}
    (h : x.session.Awaits d t) (hnow : d < (e x.name).now) (hclock : (e x.name).now2 ≤ t)
    (hy : (checkVisit sessions maxsessions e x).1 = some y) :
    y.session.Over t := by
  obtain ⟨name, s⟩ := x
  have hscale (base : Int) (hbase : 0 ≤ base) := scaleTimeout_le base hbase hmax sessions
  cases s with
  | icmp s =>
    have hexpired : s.time + getIcmpTimeout sessions maxsessions < (e name).now :=
      Int.lt_of_le_of_lt
        (Int.le_trans (Int.add_le_add_left (hscale icmpTimeout (by decide)) _) h) hnow
    simp [checkVisit, checkIcmpSession, hexpired, deleteIf] at hy
  | udp s =>
    obtain ⟨-, hy⟩ := deleteIf_some hy
    cases hy
    refine checkUdp_expires _ h hclock fun hst => ?_
    exact Int.lt_of_le_of_lt
      (Int.le_trans (Int.add_le_add_left (hscale _ (udpTimeout_nonneg s)) _) (h.1 hst)) hnow
  | tcp s =>
    obtain ⟨-, hy⟩ := deleteIf_some hy
    cases hy
    refine checkTcp_expires _ h hclock fun hst => ?_
    exact Int.lt_of_le_of_lt
      (Int.le_trans (Int.add_le_add_left (hscale _ (tcpTimeout_nonneg s)) _) (h.1 hst)) hnow

/-- A check pass behind the keep time deletes a closed session. -/
theorem checkVisit_deletes (e : Nat → CheckAnswer) {x : Entry} (h : x.session.Over t)
    (hnow : ∀ k ∈ x.session.keep, t + k < (e x.name).now) :
    (checkVisit sessions maxsessions e x).1 = none := by
  obtain ⟨name, s⟩ := x
  cases s with
  | icmp s => cases h
  | udp s =>
    obtain ⟨hst, htime⟩ := h
    have hkept : s.time + udpKeepTimeout < (e name).now :=
      Int.lt_of_le_of_lt (Int.add_le_add_right htime _) (hnow _ rfl)
    rcases hst with hst | hst <;>
      simp [checkVisit, checkUdpSession, expireUdp, finishUdp, hst, hkept, deleteIf]
  | tcp s =>
    obtain ⟨hst, -, htime⟩ := h
    have hkept : s.time + Tcp.tcpKeepTimeout < (e name).now :=
      Int.lt_of_le_of_lt (Int.add_le_add_right htime _) (hnow _ rfl)
    simp [checkVisit, Tcp.checkTcpSession, Tcp.expireSession, Tcp.closeSession, Tcp.State.closed,
      hst, hkept, deleteIf]

end

/-! ## The state and the descriptor of every session -/

theorem step_sound (c : Config) {l : Loop} (h : ∀ x ∈ l.table, x.session.Sound) (i : Input) :
    ∀ x ∈ (step c l i).1.table, x.session.Sound := by
  have hpass (f : Visit Entry Out) (hf : ∀ x ∈ l.table, Careful x (f x)) : ∀ y ∈ (l.pass f).1.table,
      y.session.Sound := by
    intro y hy
    obtain ⟨x, hx, hxy⟩ := mem_sweep.mp hy
    exact ((hf x hx).left y hxy).2.1
  have honly (name : Nat) {f : Visit Entry Out} (hf : ∀ x ∈ l.table, Careful x (f x)) :
      ∀ x ∈ l.table, Careful x (only Entry.name name f x) :=
    fun x hx => only_cases Entry.name name f x (careful_stay (h x hx)) fun _ => hf x hx
  cases i with
  | monitor e => exact hpass _ fun x hx => monitorVisit_careful (h x hx) c.abi e
  | check e => exact hpass _ fun x hx => checkVisit_careful (h x hx) _ _ e
  | packet e p =>
    show ∀ x ∈ (handleIp c e p l).1.table, x.session.Sound
    refine handleIp_cases c e p l (fun _ => h) (fun _ _ _ _ => h) ?_ ?_
    · exact fun x _ _ => hpass _ (honly x.name fun y hy => packetVisit_careful (h y hy) c.abi e p)
    · intro _ _ _ x hx
      cases hsock : e.sock with
      | failed | leaked =>
        rw [hsock] at hx
        exact h x hx
      | ok fd =>
        rw [hsock] at hx
        rcases List.mem_cons.mp hx with hx | hx
        · exact hx ▸ created_sound e l.next p fd
        · exact h x hx
  | socket name e t => exact hpass _ (honly name fun x hx => socketVisit_careful (h x hx) c.abi e t)
  | allowed e => exact hpass _ fun x hx => allowedVisit_careful (h x hx) e
  | clear => exact hpass _ fun x _ => clearVisit_careful x

theorem run_sound (c : Config) (past : List Input) :
    ∀ x ∈ (run (step c) empty past).1.table, x.session.Sound :=
  run_invariant (step c) (fun _ _ => True) (fun l _ => ∀ x ∈ l.table, x.session.Sound)
    (fun _ _ i hl _ => step_sound c hl i)
    past empty (by simp [empty]) (along_of_forall _ _ _ fun _ _ => trivial)

/-! ## The session in the table -/

section

variable {c : Config} {l : Loop} {n : Nat} {d t : Int} {s : Session}

theorem mem_of_view (hs : (sessionPart c n).view l = some s) :
    ∃ x ∈ l.table, x.name = n ∧ x.session = s := by
  obtain ⟨x, hx, hsession⟩ := Option.map_eq_some_iff.mp hs
  exact ⟨x, List.mem_of_find?_eq_some hx, by simpa using List.find?_some hx, hsession⟩

theorem sound_of_view (past : List Input)
    (hs : (sessionPart c n).view (run (step c) empty past).1 = some s) : s.Sound := by
  obtain ⟨x, hx, -, hsession⟩ := mem_of_view hs
  exact hsession ▸ run_sound c past x hx

/-- What a session keeps through everything it is told, it keeps in the table. -/
theorem step_persists {Φ : Session → Prop} {P : Told → Prop}
    (hΦ : ∀ s k, Φ s → P k → Φ (Session.step c.abi s k).1) {i : Input} (hrunning : Running n l i)
    (htold : ∀ s, (sessionPart c n).view l = some s → ∀ k ∈ told c n l s i, P k)
    (hs : ∀ s, (sessionPart c n).view l = some s → Φ s) (s : Session)
    (hview : (sessionPart c n).view (step c l i).1 = some s) :
    Φ s := by
  obtain ⟨hl, hn, hi⟩ := hrunning
  have halone := step_alone (c := c) hl hn hi
  cases hold : (sessionPart c n).view l with
  | none =>
    rw [(halone.gone hold).1] at hview
    cases hview
  | some s₀ =>
    rw [halone.left s₀ hold s hview]
    exact run_invariant (Session.step c.abi) (fun _ k => P k) (fun s _ => Φ s)
      (fun s _ k h hk => hΦ s k h hk) _ s₀ (hs s₀ hold)
      (along_of_forall _ _ _ (htold s₀ hold))

theorem run_persists_view {Φ : Session → Prop}
    (hΦ : ∀ s k, Φ s → k.Idle t → Φ (Session.step c.abi s k).1) {is : List Input}
    (hrun : Along (step c) (fun l i => Running n l i ∧ Undisturbed c n t l i) l is)
    (hs : ∀ s, (sessionPart c n).view l = some s → Φ s) :
    ∀ s, (sessionPart c n).view (run (step c) l is).1 = some s → Φ s :=
  run_invariant (step c) _ (fun l _ => ∀ s, (sessionPart c n).view l = some s → Φ s)
    (fun _ _ _ h hi => step_persists hΦ hi.1 hi.2 h) is l hs hrun

/-- A check pass looks at the session, and deletes it or leaves what the check left. -/
theorem view_check (hl : Named l) (hn : n < l.next) (e : Nat → CheckAnswer)
    (hs : (sessionPart c n).view (step c l (.check e)).1 = some s) :
    ∃ x y, (sessionPart c n).view l = some x.session ∧ x.name = n ∧
      (checkVisit l.sessions c.maxsessions e x).1 = some y ∧ y.session = s := by
  obtain ⟨hfind, -⟩ := step_old (c := c) hl (picks_said n) hn (i := .check e) trivial
  obtain ⟨y, hy, hsession⟩ := Option.map_eq_some_iff.mp hs
  obtain ⟨x, hx, hxy⟩ := Option.bind_eq_some_iff.mp (hfind.symm.trans hy)
  exact ⟨x, y, by simp [sessionPart, hx], by simpa using List.find?_some hx, hxy, hsession⟩

theorem undisturbed_check {e : Nat → CheckAnswer} (h : Undisturbed c n t l (.check e))
    (hs : (sessionPart c n).view l = some s) : (e n).now2 ≤ t := by
  have hidle := h s hs
  cases s with
  | icmp | udp | tcp => exact hidle _ (List.mem_singleton.mpr rfl)

/-- At most the time of a check pass can be behind the timeout. -/
theorem awaits_of_sound (h : s.Sound) (hnow : s.time ≤ t) : s.Awaits (s.time + s.timeout) t := by
  cases s with
  | icmp s => exact Int.le_refl _
  | udp s => exact ⟨fun _ => Int.le_refl _, fun _ => hnow⟩
  | tcp s =>
    refine ⟨fun _ => Int.le_refl _, fun hst => ⟨?_, hnow⟩⟩
    have hgone : s.socket = -1 := by simpa [Session.Sound, Tcp.Descriptor, hst] using h
    omega

/-- Behind a check pass that comes after its timeout the session is closed, or gone. -/
theorem run_expires (hmax : 0 < c.maxsessions) {e : Nat → CheckAnswer} {before between : List Input}
    {k : Option Int} (hs : ∀ s, (sessionPart c n).view l = some s → s.Awaits d t ∧ s.keep = k)
    (hrun : Along (step c) (fun l i => Running n l i ∧ Undisturbed c n t l i) l
      (before ++ .check e :: between))
    (hnow : d < (e n).now) :
    ∀ s, (sessionPart c n).view (run (step c) l (before ++ .check e :: between)).1 = some s →
      s.Over t ∧ s.keep = k := by
  rw [along_append, along_cons] at hrun
  obtain ⟨hbefore, hcheck, hbetween⟩ := hrun
  have hwaits := run_persists_view (Φ := fun s => s.Awaits d t ∧ s.keep = k)
    (fun s i h hi => ⟨awaits_step h.1 hi, (keep_step c.abi s i).trans h.2⟩) hbefore hs
  rw [run_append, run_cons]
  generalize (run (step c) l before).1 = m at *
  have hover : ∀ s, (sessionPart c n).view (step c m (.check e)).1 = some s →
      s.Over t ∧ s.keep = k := by
    intro s hview
    obtain ⟨x, y, hx, hname, hxy, hy⟩ := view_check hcheck.1.1.named hcheck.1.2.1 e hview
    have hclock := undisturbed_check hcheck.2 hx
    rw [← hname] at hnow hclock
    refine ⟨hy ▸ checkVisit_expires hmax e (hwaits _ hx).1 hnow hclock hxy, ?_⟩
    exact step_persists (fun s i h _ => (keep_step c.abi s i).trans h) hcheck.1
      (fun _ _ _ _ => trivial)
      (fun s hs => (hwaits s hs).2) s hview
  have hrest := run_persists_view (Φ := fun s => s.Over t ∧ s.keep = k)
    (fun s i h hi => ⟨over_step h.1 hi, (keep_step c.abi s i).trans h.2⟩) hbetween hover
  exact hrest

end

/-- A session that no packet and no event reaches is deleted by the second of two check
passes, the first behind its timeout and the second behind its keep time, whatever the
loop does for other sessions before, between and after them. -/
theorem idle_session_deleted (c : Config) (hmax : 0 < c.maxsessions)
    (past before between after : List Input) (e₁ e₂ : Nat → CheckAnswer) (n : Nat) (s : Session)
    (t : Int) (hs : (sessionPart c n).view (run (step c) empty past).1 = some s)
    (hlooping : ∀ i ∈ (before ++ .check e₁ :: between) ++ .check e₂ :: after, i.looping)
    (hquiet : Along (step c) (Undisturbed c n t) (run (step c) empty past).1
      (before ++ .check e₁ :: between))
    (hfirst : s.time + s.timeout < (e₁ n).now) (hnow : (e₁ n).now ≤ t)
    (hsecond : ∀ k ∈ s.keep, t + k < (e₂ n).now) :
    (sessionPart c n).view
      (run (step c) (run (step c) empty past).1
        ((before ++ .check e₁ :: between) ++ .check e₂ :: after)).1 = none := by
  have hl : Apart (run (step c) empty past).1 := run_apart c past
  have hn : n < (run (step c) empty past).1.next := lt_next_of_view hl.named hs
  have hsound : s.Sound := sound_of_view past hs
  have htime : s.time ≤ t := by
    have hpos : 0 ≤ s.timeout := s.timeout_nonneg
    omega
  generalize (run (step c) empty past).1 = l at *
  have hrunning := along_running (c := c) hl hn hlooping
  rw [along_append, along_cons] at hrunning
  obtain ⟨hrun, hcheck, hafter⟩ := hrunning
  have hstart : ∀ s', (sessionPart c n).view l = some s' →
      s'.Awaits (s.time + s.timeout) t ∧ s'.keep = s.keep := by
    intro s' hs'
    cases hs.symm.trans hs'
    exact ⟨awaits_of_sound hsound htime, rfl⟩
  have hover := run_expires hmax hstart ((along_and _ _ _ _ _).mpr ⟨hrun, hquiet⟩) hfirst
  rw [run_append, run_cons]
  generalize (run (step c) l (before ++ .check e₁ :: between)).1 = m at *
  have hgone : (sessionPart c n).view (step c m (.check e₂)).1 = none := by
    cases hview : (sessionPart c n).view (step c m (.check e₂)).1 with
    | none => rfl
    | some s' =>
      obtain ⟨x, y, hx, hname, hxy, -⟩ := view_check hcheck.1.named hcheck.2.1 e₂ hview
      obtain ⟨hclosed, hkeep⟩ := hover _ hx
      rw [← hkeep, ← hname] at hsecond
      rw [checkVisit_deletes e₂ hclosed hsecond] at hxy
      cases hxy
  have halone : Along (step c) ((sessionPart c n).Alone (step c) (Session.step c.abi))
      (step c m (.check e₂)).1 after :=
    along_of_invariant (step c) (Running n) _ (fun _ => True)
      (fun _ _ _ hi => ⟨step_alone hi.1 hi.2.1 hi.2.2, trivial⟩)
      after _ trivial hafter
  exact (Part.run_gone _ after halone hgone).1

/-- Two UDP flows: the first is left alone while the second goes on and a third begins. -/
theorem idle_session_deleted_udp :
    (sessionPart (plainConfig 100 false) 0).view (run (step (plainConfig 100 false))
      (run (step (plainConfig 100 false)) empty (twoFlows.take 2)).1
      ([.packet (plainEnv 5) (udpPacket client 40001 (server 34) 9999 [3])] ++
        .check (fun _ => answerAt 301) ::
        [.packet (plainEnv 5) (udpPacket client 40002 (server 34) 9999 [4])] ++
          .check (fun _ => answerAt 362) :: [])).1 = none :=
  idle_session_deleted _ (by decide) (twoFlows.take 2) _ _ [] _ _ 0
    (.udp ⟨0, 4, udp4Maxmsg, 1, 0, client, 40000, server 34, 9999, .active, 3⟩) 301
      (by decide +kernel) (by decide)
    (by decide +kernel) (by decide) (by decide) (by decide +kernel)

end PdaNetClient.Table
