import PdaNetClient.VpnService
import PdaNetClient.Monitor

/-!
# The monitor and the VPN service

The monitor, the VPN service and the intents between them, which arrive in the order
they were sent. The flag of the monitor is a guess at what the service will be once the
intents in flight are delivered.
-/
namespace PdaNetClient.Monitor

open Runs

set_option autoImplicit false

structure System where
  vpnServiceRunning : Bool
  service : Vpn.Service
  queue : List Intent
  deriving DecidableEq, Repr

def atBoot : System := ⟨false, Vpn.idle, []⟩

/-- What can happen: a callback of the monitor, a start sent by `VpnPermissionActivity`,
the delivery of the oldest intent, a revocation, the end of either service (the system
creates the monitor anew), and what goes on beside the commands in the VPN service. -/
inductive Event where
  | checkNetwork (sent : Bool) (lp : Option LinkProperties)
  | onLost (sent : Bool)
  | request (sent : Bool)
  | deliver (granted : Bool) (failure : Option Vpn.Failure)
  | revoke
  | destroyService
  | destroyMonitor (sent : Bool)
  | enter (fd : Nat)
  | exit (fd : Nat)
  | timeout
  deriving DecidableEq, Repr

/-- The command an intent is delivered as. -/
def Intent.input (granted : Bool) (failure : Option Vpn.Failure) : Intent → Vpn.Input
  | .start => .start granted failure
  | .stop => .stop

/-- A function of the monitor changes the flag and sends intents. -/
def System.monitor (s : System) (r : Bool × List Intent) : System :=
  { s with vpnServiceRunning := r.1, queue := s.queue ++ r.2 }

def System.command (s : System) (i : Vpn.Input) : System :=
  { s with service := (Vpn.step s.service i).1 }

def System.next (s : System) : Event → System
  | .checkNetwork sent lp => s.monitor (checkNetwork sent lp s.vpnServiceRunning)
  | .onLost sent => s.monitor (Monitor.onLost sent s.vpnServiceRunning)
  | .request sent => if sent then { s with queue := s.queue ++ [.start] } else s
  | .deliver granted failure =>
    match s.queue with
    | [] => s
    | i :: queue => { s.command (i.input granted failure) with queue := queue }
  | .revoke => s.command .revoke
  | .destroyService => s.command .destroy
  | .destroyMonitor sent =>
    { s.monitor (stopVpnService sent s.vpnServiceRunning) with vpnServiceRunning := false }
  | .enter fd => s.command (.enter fd)
  | .exit fd => s.command (.exit fd)
  | .timeout => s.command .timeout

def system : Machine System Event Empty := fun s e => (s.next e, [])

/-- With no intent in flight, the flag says whether the service holds a tunnel. -/
def Agree (s : System) : Prop := s.queue = [] → (s.vpnServiceRunning = true ↔ s.service.vpn ≠ none)

instance (s : System) : Decidable (Agree s) := inferInstanceAs (Decidable (_ → _))

/-- With no intent in flight, finding PdaNet starts a tunnel that is down and losing it
stops one that is up. -/
def Responds (s : System) (e : Event) : Prop :=
  s.queue = [] → match e with
    | .checkNetwork true (some lp) =>
      (onPdaNet lp → s.service.vpn = none → (s.next e).queue = [.start]) ∧
        (¬ onPdaNet lp → s.service.vpn ≠ none → (s.next e).queue = [.stop])
    | .onLost true => s.service.vpn ≠ none → (s.next e).queue = [.stop]
    | _ => True

/-- A start from the activity only repeats one of the monitor; the last start in flight
succeeds, and none crashes in `acquire`; a tunnel is only ended from outside with intents
in flight; the monitor ends with its tunnel stopped. -/
def Foreseen (s : System) : Event → Prop
  | .request sent => sent = true → s.vpnServiceRunning = true
  | .deliver granted failure => s.service.vpn = none → s.queue.head? = some .start →
      (granted = true → failure ≠ some (.acquire false)) ∧
      (s.queue.tail = [] → granted = true ∧ failure = none)
  | .revoke | .destroyService => s.service.vpn = none ∨ s.queue ≠ []
  | .destroyMonitor sent => s.vpnServiceRunning = true → sent = true
  | _ => True

instance (s : System) (e : Event) : Decidable (Foreseen s e) := by
  cases e <;> unfold Foreseen <;> infer_instance

/-! ## What is expected of the service -/

/-- Whether a tunnel is up behind the intents in flight, if every start succeeds. -/
def expected (up : Bool) (queue : List Intent) : Bool :=
  queue.foldl (fun _ i => decide (i = .start)) up

@[simp] theorem expected_nil (up : Bool) : expected up [] = up := rfl

@[simp] theorem expected_cons (up : Bool) (i : Intent) (queue : List Intent) :
    expected up (i :: queue) = expected (decide (i = .start)) queue := rfl

@[simp] theorem expected_append (up : Bool) (queue : List Intent) (i : Intent) :
    expected up (queue ++ [i]) = decide (i = .start) := by
  simp [expected]

/-- Only the last intent counts. -/
theorem expected_of_ne_nil {queue : List Intent} (h : queue ≠ []) (up up' : Bool) :
    expected up queue = expected up' queue := by
  cases queue with
  | nil => exact absurd rfl h
  | cons i queue => rfl

/-- The process runs, and releasing the lock does not end it. -/
structure Live (w : Vpn.Service) : Prop where
  alive : w.crashed = false
  lock : w.wakeLock ≠ some (.unacquired false)

/-! ## What the commands do to the tunnel -/

section

variable {w : Vpn.Service}

theorem releaseLock_live (h : Live w) :
    Live (Vpn.releaseLock w).1 ∧ (Vpn.releaseLock w).1.vpn = w.vpn := by
  unfold Vpn.releaseLock
  split
  · exact ⟨h, rfl⟩
  · rename_i hlock
    exact absurd hlock h.lock
  · exact ⟨⟨h.alive, by simp⟩, rfl⟩
  · exact ⟨⟨h.alive, by simp⟩, rfl⟩

theorem stopTunnel_live (h : Live w) :
    Live (Vpn.stopTunnel w).1 ∧ (Vpn.stopTunnel w).1.vpn = none := by
  unfold Vpn.stopTunnel
  split
  · rename_i hvpn
    exact ⟨(releaseLock_live h).1, (releaseLock_live h).2.trans hvpn⟩
  · exact releaseLock_live ⟨h.alive, h.lock⟩

theorem startTunnel_live (h : Live w) {failure : Option Vpn.Failure}
    (hacquire : failure ≠ some (.acquire false)) :
    Live (Vpn.startTunnel failure w).1 ∧
    ((Vpn.startTunnel failure w).1.vpn ≠ none ↔ failure = none) := by
  unfold Vpn.startTunnel
  rcases failure with _ | (_ | _ | (_ | _) | _)
  · exact ⟨⟨h.alive, by simp⟩, by simp⟩
  · exact ⟨(stopTunnel_live h).1, by simp [(stopTunnel_live h).2]⟩
  · have hstop :=
      stopTunnel_live (w := { w with vpn := some w.established, established := w.established + 1 })
        ⟨h.alive, h.lock⟩
    exact ⟨hstop.1, by simp [hstop.2]⟩
  · exact absurd rfl hacquire
  · have hstop := stopTunnel_live (w := { w with
      vpn := some w.established, established := w.established + 1,
      wakeLock := some (.unacquired true) }) ⟨h.alive, by simp⟩
    exact ⟨hstop.1, by simp [hstop.2]⟩
  · have hstop := stopTunnel_live (w := { w with
      vpn := some w.established, established := w.established + 1,
      wakeLock := some .held }) ⟨h.alive, by simp⟩
    exact ⟨hstop.1, by simp [hstop.2]⟩

theorem step_live (h : Live w) (i : Vpn.Input) :
    Vpn.step w i = match i with
      | .start granted failure => Vpn.onStart granted failure w
      | .stop | .revoke | .destroy => Vpn.stopTunnel w
      | .enter fd =>
        ({ w with proxies := w.proxies.map fun p => if p.fd =
          fd then { p with entered := true } else p }, [])
      | .exit fd => ({ w with proxies := w.proxies.filter fun p => p.fd ≠ fd }, [])
      | .timeout =>
        (if w.wakeLock = some .held then { w with wakeLock := some .timedOut } else w, []) := by
  unfold Vpn.step
  rw [h.alive]
  rfl

/-- What goes on beside the commands leaves the tunnel. -/
theorem beside_live (h : Live w) (i : Vpn.Input)
    (hi : (∃ fd, i = .enter fd ∨ i = .exit fd) ∨ i = .timeout) :
    Live (Vpn.step w i).1 ∧ (Vpn.step w i).1.vpn = w.vpn := by
  rw [step_live h]
  rcases hi with ⟨fd, rfl | rfl⟩ | rfl
  · exact ⟨⟨h.alive, h.lock⟩, rfl⟩
  · exact ⟨⟨h.alive, h.lock⟩, rfl⟩
  · simp only
    split
    · exact ⟨⟨h.alive, by simp⟩, rfl⟩
    · exact ⟨h, rfl⟩

end

/-! ## The flag is what is expected -/

structure Expects (s : System) : Prop where
  flag : s.vpnServiceRunning = expected s.service.vpn.isSome s.queue
  live : Live s.service

section

variable {s : System}

theorem Expects.agree (h : Expects s) : Agree s := by
  intro hq
  rw [h.flag, hq, expected_nil, Option.isSome_iff_ne_none]

/-- The monitor sends what makes its flag right. -/
theorem monitor_expects (h : Expects s) {r : Bool × List Intent}
    (hr : r = (s.vpnServiceRunning, []) ∨ r = (true, [.start]) ∨ r = (false, [.stop])) :
    Expects (s.monitor r) := by
  rcases hr with rfl | rfl | rfl
  · exact ⟨by simpa [System.monitor] using h.flag, h.live⟩
  · exact ⟨by simp [System.monitor], h.live⟩
  · exact ⟨by simp [System.monitor], h.live⟩

theorem stopVpnService_cases (sent running : Bool) :
    stopVpnService sent running = (running, []) ∨ running = true ∧ sent = true ∧
    stopVpnService sent running = (false, [.stop]) := by
  cases sent <;> cases running <;> simp [stopVpnService]

theorem checkNetwork_cases (sent : Bool) (lp : Option LinkProperties) (running : Bool) :
    checkNetwork sent lp running = (running, []) ∨ checkNetwork sent lp running = (true, [.start]) ∨
      checkNetwork sent lp running = (false, [.stop]) := by
  unfold checkNetwork startVpnService stopVpnService
  cases lp with
  | none => simp
  | some lp => by_cases hlp : onPdaNet lp <;> cases sent <;> cases running <;> simp [hlp]

/-- The tunnel behind a command. -/
theorem command_expects (h : Expects s) (i : Vpn.Input) (hlive : Live (Vpn.step s.service i).1)
    (hvpn : (Vpn.step s.service i).1.vpn = s.service.vpn ∨ s.queue ≠ []) :
    Expects (s.command i) := by
  refine ⟨?_, hlive⟩
  show s.vpnServiceRunning = expected (Vpn.step s.service i).1.vpn.isSome s.queue
  rcases hvpn with hvpn | hq
  · rw [hvpn]
    exact h.flag
  · rw [h.flag]
    exact expected_of_ne_nil hq _ _

/-- A tunnel ended from outside. -/
theorem stop_expects (h : Expects s) (i : Vpn.Input)
    (hstop : (Vpn.step s.service i) = Vpn.stopTunnel s.service)
    (hkeep : s.service.vpn = none ∨ s.queue ≠ []) : Expects (s.command i) := by
  obtain ⟨hlive, hvpn⟩ := stopTunnel_live h.live
  refine command_expects h i (hstop ▸ hlive) (hkeep.imp_left fun hnone => ?_)
  rw [hstop, hvpn, hnone]

/-- The delivery of the oldest intent `i`. -/
theorem deliver_expects (h : Expects s) {i : Intent} {queue : List Intent}
    (hq : s.queue = i :: queue) {granted : Bool} {failure : Option Vpn.Failure}
    (hlive : Live (Vpn.step s.service (i.input granted failure)).1)
    (hvpn : queue = [] → (Vpn.step s.service (i.input granted failure)).1.vpn.isSome =
      decide (i = .start)) :
    Expects { s.command (i.input granted failure) with queue := queue } := by
  refine ⟨?_, hlive⟩
  show s.vpnServiceRunning =
    expected (Vpn.step s.service (i.input granted failure)).1.vpn.isSome queue
  rw [h.flag, hq, expected_cons]
  by_cases hnil : queue = []
  · rw [hvpn hnil]
  · exact expected_of_ne_nil hnil _ _

/-- A start that finds a tunnel is ignored; one that finds none is foreseen. -/
theorem start_expects (h : Expects s) {queue : List Intent} (hq : s.queue = .start :: queue)
    {granted : Bool} {failure : Option Vpn.Failure} (he : Foreseen s (.deliver granted failure)) :
    Expects { s.command (.start granted failure) with queue := queue } := by
  have hstep : Vpn.step s.service (.start granted failure) =
      Vpn.onStart granted failure s.service :=
    step_live h.live (.start granted failure)
  by_cases hvpn : s.service.vpn = none
  · obtain ⟨hacquire, hlast⟩ := he hvpn (by rw [hq]; rfl)
    rw [hq, List.tail_cons] at hlast
    cases granted with
    | false =>
      have hrefused : Vpn.onStart false failure s.service = (s.service, []) := by simp [Vpn.onStart]
      refine deliver_expects (i := .start) h hq ?_ fun hnil => absurd (hlast hnil).1 (by simp)
      exact (hstep.trans hrefused) ▸ h.live
    | true =>
      have htunnel : Vpn.onStart true failure s.service = Vpn.startTunnel failure s.service := by
        simp [Vpn.onStart, hvpn]
      obtain ⟨hlive, hup⟩ := startTunnel_live h.live (hacquire rfl)
      refine deliver_expects (i := .start) h hq ((hstep.trans htunnel) ▸ hlive) fun hnil => ?_
      simpa [Intent.input, hstep, htunnel, Option.isSome_iff_ne_none] using hup.mpr (hlast hnil).2
  · have hignored : Vpn.onStart granted failure s.service = (s.service, []) := by
      simp [Vpn.onStart, hvpn]
    refine deliver_expects (i := .start) h hq ((hstep.trans hignored) ▸ h.live) fun _ => ?_
    simpa [Intent.input, hstep, hignored, Option.isSome_iff_ne_none] using hvpn

theorem delivered_expects (h : Expects s) {granted : Bool} {failure : Option Vpn.Failure}
    (he : Foreseen s (.deliver granted failure)) : Expects (s.next (.deliver granted failure)) := by
  show Expects (match s.queue with
    | [] => s
    | i :: queue => { s.command (i.input granted failure) with queue := queue })
  cases hq : s.queue with
  | nil => exact h
  | cons i queue =>
    cases i with
    | start => exact start_expects h hq he
    | stop =>
      obtain ⟨hlive, hvpn⟩ := stopTunnel_live h.live
      have hstep : Vpn.step s.service (Intent.stop.input granted failure) =
          Vpn.stopTunnel s.service :=
        step_live h.live .stop
      refine deliver_expects h hq (hstep ▸ hlive) fun _ => ?_
      simp [hstep, hvpn]

/-- What happens beside the commands. -/
theorem beside_expects (h : Expects s) (i : Vpn.Input)
    (hi : (∃ fd, i = .enter fd ∨ i = .exit fd) ∨ i = .timeout) :
    Expects (s.command i) := by
  obtain ⟨hlive, hvpn⟩ := beside_live h.live i hi
  exact command_expects h i hlive (.inl hvpn)

theorem destroyed_expects (h : Expects s) {sent : Bool} (he : Foreseen s (.destroyMonitor sent)) :
    Expects (s.next (.destroyMonitor sent)) := by
  rcases stopVpnService_cases sent s.vpnServiceRunning with hstop | ⟨-, -, hstop⟩
  · have hdown : s.vpnServiceRunning = false := by
      by_contra hrunning
      have hsent := he (by simpa using hrunning)
      simp [stopVpnService, hsent, hrunning] at hstop
    have hnext : Expects (s.monitor (s.vpnServiceRunning, [])) := monitor_expects h (.inl rfl)
    refine ⟨?_, h.live⟩
    simpa [System.next, System.monitor, hdown, stopVpnService] using hnext.flag
  · exact ⟨by simp [System.next, hstop, System.monitor], h.live⟩

theorem next_expects (h : Expects s) (e : Event) (he : Foreseen s e) : Expects (s.next e) := by
  cases e with
  | checkNetwork sent lp => exact monitor_expects h (checkNetwork_cases sent lp _)
  | onLost sent =>
    exact monitor_expects h ((stopVpnService_cases sent _).imp_right fun hs => .inr hs.2.2)
  | request sent =>
    cases sent with
    | false => exact h
    | true => exact ⟨by simpa [System.next] using he rfl, h.live⟩
  | deliver granted failure => exact delivered_expects h he
  | revoke => exact stop_expects h .revoke (step_live h.live .revoke) he
  | destroyService => exact stop_expects h .destroy (step_live h.live .destroy) he
  | destroyMonitor sent => exact destroyed_expects h he
  | enter fd => exact beside_expects h (.enter fd) (.inl ⟨fd, .inl rfl⟩)
  | exit fd => exact beside_expects h (.exit fd) (.inl ⟨fd, .inr rfl⟩)
  | timeout => exact beside_expects h .timeout (.inr rfl)

/-- A monitor that agrees with the service responds. -/
theorem Agree.responds (h : Agree s) (e : Event) : Responds s e := by
  intro hq
  have hflag := h hq
  cases e with
  | checkNetwork sent lp =>
    cases sent with
    | false => trivial
    | true =>
      cases lp with
      | none => trivial
      | some lp =>
        refine ⟨fun hlp hdown => ?_, fun hlp hup => ?_⟩
        · have hrunning : s.vpnServiceRunning = false := by simpa [hdown] using hflag
          simp [System.next, System.monitor, checkNetwork, startVpnService, hlp, hrunning, hq]
        · have hrunning := hflag.mpr hup
          simp [System.next, System.monitor, checkNetwork, stopVpnService, hlp, hrunning, hq]
  | onLost sent =>
    cases sent with
    | false => trivial
    | true =>
      intro hup
      have hrunning := hflag.mpr hup
      simp [System.next, System.monitor, Monitor.onLost, stopVpnService, hrunning, hq]
  | _ => trivial

end

/-- Along a foreseen run the monitor and the VPN service agree whenever no intent is in
flight, and so the monitor responds to what it finds. -/
theorem run_agrees (es : List Event) (h : Along system Foreseen atBoot es) :
    Always system Agree atBoot es ∧ Along system Responds atBoot es := by
  have hboot : Expects atBoot := ⟨rfl, rfl, by simp [atBoot, Vpn.idle]⟩
  have hexpects (s : System) (e : Event) (hs : Expects s) (he : Foreseen s e) :
      (Agree s ∧ Responds s e) ∧ Expects (system s e).1 :=
    ⟨⟨hs.agree, hs.agree.responds e⟩, next_expects hs e he⟩
  have halong := along_of_invariant system Foreseen (fun s e => Agree s ∧ Responds s e) Expects
    hexpects es atBoot hboot h
  obtain ⟨hagree, hresponds⟩ := (along_and system _ _ atBoot es).mp halong
  have hlast := run_invariant system Foreseen (fun s _ => Expects s)
    (fun s _ e hs he => next_expects hs e he) es atBoot
    hboot h
  exact ⟨(always_iff system Agree atBoot es).mpr ⟨hagree, hlast.agree⟩, hresponds⟩

/-- PdaNet is found, lost while its tunnel is up, and found again before the stop was
delivered. -/
theorem run_agrees_found_again :
    Always system Agree atBoot [.checkNetwork true (some pdanet), .deliver true none, .onLost true,
        .checkNetwork true (some pdanet), .deliver true none, .deliver true none] ∧
      Along system Responds atBoot [.checkNetwork true (some pdanet), .deliver true none,
        .onLost true, .checkNetwork true (some pdanet), .deliver true none, .deliver true none] :=
  run_agrees _ (by decide +kernel)

/-- The permission is not granted: the flag stays set, and finding PdaNet again starts
nothing. With the flag down, a tunnel started by the activity is not stopped. -/
theorem refused_start_disagrees :
    ¬ Always system Agree atBoot [.checkNetwork true (some pdanet), .deliver false none] ∧
      (run system atBoot [.checkNetwork true (some pdanet), .deliver false none,
        .checkNetwork true (some pdanet)]).1.queue = [] ∧
      ¬ Always system Agree atBoot [.request true, .deliver true none] ∧
      (run system atBoot [.request true, .deliver true none, .onLost true]).1.queue = [] := by
  decide +kernel

end PdaNetClient.Monitor
