import PdaNetClient.Runs

/-!
# `Tun2HttpVpnService`

The descriptor, the wake lock and the native proxy of the VPN service. Descriptors
are numbered in the order in which they are established. Any call of `startTunnel`
may throw; `Tun2proxy.run` is entered some time after its thread was started, and
then blocks until `stop()` or until it fails.
-/
namespace PdaNetClient.Vpn

open Runs

set_option autoImplicit false

/-- A lock object: `acquire` threw, before or behind the count of acquires; it is
held; or its timeout of 24 hours has passed. -/
inductive WakeLock where
  | unacquired (counted : Bool)
  | held
  | timedOut
  deriving DecidableEq, Repr

/-- A thread started for `Tun2proxy.start` that has not returned. -/
structure Proxy where
  fd : Nat
  entered : Bool
  deriving DecidableEq, Repr

/-- The fields of the service, and what is around it: the number of descriptors
established, those closed, and the native proxies. -/
structure Service where
  vpn : Option Nat
  wakeLock : Option WakeLock
  established : Nat
  closed : List Nat
  proxies : List Proxy
  crashed : Bool
  deriving DecidableEq, Repr

def Service.running (w : Service) : List Nat := w.proxies.map Proxy.fd

def idle : Service := ⟨none, none, 0, [], [], false⟩

inductive Out where
  | established (fd : Nat)
  | started (fd : Nat)
  | shutdown (told : List Nat)
  | close (fd : Nat)
  | acquire
  | release (acquired : Bool)
  deriving DecidableEq, Repr

/-- `wakeLock?.release(); wakeLock = null`. A lock whose count is zero throws
"WakeLock under-locked", which nothing catches. -/
def releaseLock (w : Service) : Service × List Out :=
  match w.wakeLock with
  | none => (w, [])
  | some (.unacquired false) => ({ w with crashed := true }, [.release false])
  | some (.unacquired true) => ({ w with wakeLock := none }, [.release false])
  | some _ => ({ w with wakeLock := none }, [.release true])

/-- `stop()` reaches the proxies inside `run`, which then return. -/
def stopTunnel (w : Service) : Service × List Out :=
  match w.vpn with
  | none => releaseLock w
  | some fd =>
    let told := (w.proxies.filter Proxy.entered).map Proxy.fd
    let r := releaseLock
      { w with
        vpn := none
        closed := w.closed ++ [fd]
        proxies := w.proxies.filter fun p => !p.entered }
    (r.1, .shutdown told :: .close fd :: r.2)

/-- Where `startTunnel` throws: up to `establish()` (a null result included), between
it and the lock object, in `acquire`, or behind it up to the start of the thread. -/
inductive Failure where
  | establish
  | lock
  | acquire (counted : Bool)
  | thread
  deriving DecidableEq, Repr

def startTunnel (failure : Option Failure) (w : Service) : Service × List Out :=
  let fd := w.established
  let up := { w with vpn := some fd, established := fd + 1 }
  match failure with
  | some .establish => stopTunnel w
  | some .lock =>
    let r := stopTunnel up
    (r.1, .established fd :: r.2)
  | some (.acquire counted) =>
    let r := stopTunnel { up with wakeLock := some (.unacquired counted) }
    (r.1, .established fd :: r.2)
  | some .thread =>
    let r := stopTunnel { up with wakeLock := some .held }
    (r.1, .established fd :: .acquire :: r.2)
  | none =>
    ({ up with wakeLock := some .held, proxies := w.proxies ++ [⟨fd, false⟩] },
      [.established fd, .acquire, .started fd])

/-- The commands, with the answer of `prepare` and the failure of `startTunnel`, and what
happens beside them: a thread enters `run`, a native proxy returns on its own, the lock
times out. -/
inductive Input where
  | start (granted : Bool) (failure : Option Failure)
  | stop
  | revoke
  | destroy
  | enter (fd : Nat)
  | exit (fd : Nat)
  | timeout
  deriving DecidableEq, Repr

/-- `onStartCommand` with `ACTION_START`. -/
def onStart (granted : Bool) (failure : Option Failure) (w : Service) : Service × List Out :=
  if w.vpn = none then
    if granted then startTunnel failure w else (w, [])
  else (w, [])

def step : Machine Service Input Out := fun w i =>
  if w.crashed then (w, [])
  else match i with
    | .start granted failure => onStart granted failure w
    | .stop | .revoke | .destroy => stopTunnel w
    | .enter fd =>
      ({ w with proxies := w.proxies.map fun p => if p.fd =
        fd then { p with entered := true } else p }, [])
    | .exit fd => ({ w with proxies := w.proxies.filter fun p => p.fd ≠ fd }, [])
    | .timeout => (if w.wakeLock = some .held then { w with wakeLock := some .timedOut } else w, [])

/-! ## What is wanted -/

/-- No descriptor is closed while its native proxy runs. -/
def Orderly : List Nat → List Out → Prop
  | _, [] => True
  | running, .shutdown told :: outs => Orderly (running.filter (· ∉ told)) outs
  | running, .started fd :: outs => Orderly (fd :: running) outs
  | running, .close fd :: outs => fd ∉ running ∧ Orderly running outs
  | running, _ :: outs => Orderly running outs

/-- What one command has to leave behind. -/
structure Restores (w : Service) (i : Input) : Prop where
  proxy : ∀ fd, (step w i).1.vpn = some fd ↔ fd ∈ (step w i).1.running
  closed : ∀ fd < (step w i).1.established, (step w i).1.closed.count fd = if (step w i).1.vpn =
    some fd then 0 else 1
  orderly : Orderly w.running (step w i).2
  lock : (step w i).1.wakeLock = some .held ↔ (step w i).1.vpn ≠ none
  acquired : .release false ∉ (step w i).2
  restarts : w.running = [] → ∀ failure, i = .start true failure → failure ≠ some .establish →
    .established w.established ∈ (step w i).2

/-- No proxy returns on its own, `acquire` does not throw, the lock does not time out,
and no tunnel is stopped before its thread has entered `run`. -/
def Undisturbed (w : Service) : Input → Prop
  | .start granted (some (.acquire _)) => granted = true → w.vpn ≠ none
  | .start _ _ => True
  | .stop | .revoke | .destroy => ∀ p ∈ w.proxies, w.vpn = some p.fd → p.entered = true
  | .enter _ => True
  | .exit fd => fd ∉ w.running
  | .timeout => w.wakeLock ≠ some .held

/-! ## The tunnel -/

/-- What the service is for: no tunnel, or one whose thread has entered `run` or will;
`n` descriptors were closed. -/
inductive Tunnel where
  | down (n : Nat)
  | up (n : Nat) (entered : Bool)
  deriving DecidableEq, Repr

namespace Tunnel

def service : Tunnel → Service
  | .down n => ⟨none, none, n, List.range n, [], false⟩
  | .up n entered => ⟨some n, some .held, n + 1, List.range n, [⟨n, entered⟩], false⟩

def next : Tunnel → Input → Tunnel
  | .down n, .start true none => .up n false
  | .down n, .start true (some .establish) => .down n
  | .down n, .start true (some _) => .down (n + 1)
  | .up n _, .stop | .up n _, .revoke | .up n _, .destroy => .down (n + 1)
  | .up n entered, .enter fd => .up n (entered || fd == n)
  | t, _ => t

end Tunnel

/-- A tunnel that has entered `run` is taken down in order. -/
theorem stopTunnel_up (n : Nat) :
    stopTunnel (Tunnel.up n true).service =
      ((Tunnel.down (n + 1)).service, [.shutdown [n], .close n, .release true]) := by
  simp [stopTunnel, releaseLock, Tunnel.service, List.range_succ]

/-- A tunnel whose thread was not started is taken down in order as well. -/
theorem startTunnel_down (n : Nat) (failure : Option Failure) :
    startTunnel failure (Tunnel.down n).service =
      match failure with
      | none => ((Tunnel.up n false).service, [.established n, .acquire, .started n])
      | some .establish => ((Tunnel.down n).service, [])
      | some .lock => ((Tunnel.down (n + 1)).service, [.established n, .shutdown [], .close n])
      | some (.acquire true) =>
        ((Tunnel.down (n + 1)).service, [.established n, .shutdown [], .close n, .release false])
      | some (.acquire false) =>
       ({ (Tunnel.down (n + 1)).service with
            wakeLock := some (.unacquired false), crashed := true },
          [.established n, .shutdown [], .close n, .release false])
      | some .thread =>
        ((Tunnel.down (n + 1)).service,
          [.established n, .acquire, .shutdown [], .close n, .release true]) := by
  rcases failure with _ | (_ | _ | (_ | _) | _) <;>
    simp [startTunnel, stopTunnel, releaseLock, Tunnel.service, List.range_succ]

/-- What is wanted of the state is a property of the tunnel it is. -/
theorem service_proxy (t : Tunnel) (fd : Nat) :
    t.service.vpn = some fd ↔ fd ∈ t.service.running := by
  cases t <;> simp [Tunnel.service, Service.running, eq_comm]

theorem service_closed (t : Tunnel) : ∀ fd < t.service.established,
    t.service.closed.count fd = if t.service.vpn = some fd then 0 else 1 := by
  intro fd hfd
  cases t with
  | down n => simpa [Tunnel.service, List.count_range] using hfd
  | up n entered =>
    simp only [Tunnel.service, List.count_range, Option.some.injEq] at hfd ⊢
    split <;> split <;> omega

theorem service_lock (t : Tunnel) : t.service.wakeLock = some .held ↔ t.service.vpn ≠ none := by
  cases t <;> simp [Tunnel.service]

/-- A command that leads from a tunnel to a tunnel restores what is wanted of the state. -/
theorem restores_of_next {t u : Tunnel} {i : Input} (hstep : (step t.service i).1 = u.service)
    (horderly : Orderly t.service.running (step t.service i).2)
    (hacquired : .release false ∉ (step t.service i).2)
    (hrestarts : t.service.running = [] → ∀ failure, i = .start true failure →
      failure ≠ some .establish → .established t.service.established ∈ (step t.service i).2) :
    Restores t.service i where
  proxy fd := hstep ▸ service_proxy u fd
  closed := hstep ▸ service_closed u
  orderly := horderly
  lock := hstep ▸ service_lock u
  acquired := hacquired
  restarts := hrestarts

/-! ## Each command -/

/-- While no tunnel is up, everything but a failing `acquire` is in order. -/
theorem step_down (n : Nat) (i : Input) (h : Undisturbed (Tunnel.down n).service i) :
    (step (Tunnel.down n).service i).1 = ((Tunnel.down n).next i).service ∧
    Restores (Tunnel.down n).service i := by
  have hnext : (step (Tunnel.down n).service i).1 = ((Tunnel.down n).next i).service ∧
      Orderly [] (step (Tunnel.down n).service i).2 ∧
      .release false ∉ (step (Tunnel.down n).service i).2 ∧
      ∀ failure, i = .start true failure → failure ≠ some .establish →
        .established n ∈ (step (Tunnel.down n).service i).2 := by
    cases i with
    | start granted failure =>
      cases granted with
      | false => exact ⟨rfl, trivial, List.not_mem_nil, by simp⟩
      | true =>
        rw [show step (Tunnel.down n).service (.start true failure) =
          startTunnel failure (Tunnel.down n).service from rfl, startTunnel_down]
        rcases failure with _ | (_ | _ | counted | _)
        · simp [Tunnel.next, Orderly]
        · simp [Tunnel.next, Orderly]
        · simp [Tunnel.next, Orderly]
        · exact absurd rfl (h rfl)
        · simp [Tunnel.next, Orderly]
    | stop => exact ⟨rfl, trivial, List.not_mem_nil, by simp⟩
    | revoke => exact ⟨rfl, trivial, List.not_mem_nil, by simp⟩
    | destroy => exact ⟨rfl, trivial, List.not_mem_nil, by simp⟩
    | enter fd => exact ⟨rfl, trivial, List.not_mem_nil, by simp⟩
    | exit fd => exact ⟨rfl, trivial, List.not_mem_nil, by simp⟩
    | timeout => exact ⟨rfl, trivial, List.not_mem_nil, by simp⟩
  exact ⟨hnext.1, restores_of_next hnext.1 hnext.2.1 hnext.2.2.1 fun _ => hnext.2.2.2⟩

/-- The three commands that end a tunnel. -/
theorem stopTunnel_next {n : Nat} {entered : Bool}
    (h : ∀ p ∈ (Tunnel.up n entered).service.proxies, (Tunnel.up n entered).service.vpn =
      some p.fd → p.entered = true) :
    (stopTunnel (Tunnel.up n entered).service).1 = (Tunnel.down (n + 1)).service ∧
      Orderly [n] (stopTunnel (Tunnel.up n entered).service).2 ∧
      .release false ∉ (stopTunnel (Tunnel.up n entered).service).2 := by
  have hentered : entered = true := h ⟨n, entered⟩ (by simp [Tunnel.service]) rfl
  rw [hentered, stopTunnel_up]
  simp [Orderly]

theorem step_up (n : Nat) (entered : Bool) (i : Input)
    (h : Undisturbed (Tunnel.up n entered).service i) :
    (step (Tunnel.up n entered).service i).1 = ((Tunnel.up n entered).next i).service ∧
      Restores (Tunnel.up n entered).service i := by
  have hnext : (step (Tunnel.up n entered).service i).1 = ((Tunnel.up n entered).next i).service ∧
      Orderly [n] (step (Tunnel.up n entered).service i).2 ∧
      .release false ∉ (step (Tunnel.up n entered).service i).2 := by
    cases i with
    | start granted failure => exact ⟨by cases granted <;> rfl, trivial, List.not_mem_nil⟩
    | stop => exact stopTunnel_next h
    | revoke => exact stopTunnel_next h
    | destroy => exact stopTunnel_next h
    | enter fd =>
      refine ⟨?_, trivial, List.not_mem_nil⟩
      by_cases hfd : n = fd
      · simp [step, Tunnel.service, Tunnel.next, hfd]
      · simp [step, Tunnel.service, Tunnel.next, hfd, Ne.symm hfd]
    | exit fd =>
      have hfd : n ≠ fd := by simpa [Undisturbed, Tunnel.service, Service.running, eq_comm] using h
      exact ⟨by simp [step, Tunnel.service, Tunnel.next, hfd], trivial, List.not_mem_nil⟩
    | timeout => exact absurd rfl h
  exact ⟨hnext.1, restores_of_next hnext.1 hnext.2.1 hnext.2.2
    (by simp [Tunnel.service, Service.running])⟩

/-! ## Each disturbance -/

/-- A lock that was not acquired is released. -/
theorem acquire_disturbs (n : Nat) (counted : Bool) :
    ¬ Restores (Tunnel.down n).service (.start true (some (.acquire counted))) := by
  intro h
  have hreleased := h.acquired
  rw [show step (Tunnel.down n).service (.start true (some (.acquire counted))) =
    startTunnel (some (.acquire counted)) (Tunnel.down n).service from rfl,
    startTunnel_down] at hreleased
  cases counted <;> simp at hreleased

/-- A proxy that has not entered `run` is not told, and its descriptor is closed. -/
theorem stopTunnel_disturbs {n : Nat} {entered : Bool}
    (h : Orderly (Tunnel.up n entered).service.running
      (stopTunnel (Tunnel.up n entered).service).2) :
    entered = true := by
  cases entered with
  | false => simp [stopTunnel, Tunnel.service, Service.running, Orderly] at h
  | true => rfl

theorem exit_disturbs (n : Nat) (entered : Bool) :
    ¬ Restores (Tunnel.up n entered).service (.exit n) := by
  intro h
  have hrunning := (h.proxy n).mp rfl
  simp [step, Tunnel.service, Service.running] at hrunning

theorem timeout_disturbs (n : Nat) (entered : Bool) :
    ¬ Restores (Tunnel.up n entered).service .timeout := by
  intro h
  have hheld := h.lock.mpr (Option.some_ne_none n)
  simp [step, Tunnel.service] at hheld

theorem undisturbed_of_restores (t : Tunnel) (i : Input) (h : Restores t.service i) :
    Undisturbed t.service i := by
  cases t with
  | down n =>
    cases i with
    | start granted failure =>
      rcases failure with _ | (_ | _ | counted | _)
      · trivial
      · trivial
      · trivial
      · rintro rfl
        exact absurd h (acquire_disturbs n counted)
      · trivial
    | enter fd => trivial
    | exit fd => exact List.not_mem_nil
    | timeout => exact fun hheld => by cases hheld
    | _ => exact fun p hp => absurd hp List.not_mem_nil
  | up n entered =>
    have hstop (hs : Orderly (Tunnel.up n entered).service.running
      (stopTunnel (Tunnel.up n entered).service).2) :
        ∀ p ∈ (Tunnel.up n entered).service.proxies, (Tunnel.up n entered).service.vpn = some p.fd →
          p.entered = true := by
      intro p hp _
      rw [List.mem_singleton.mp hp]
      exact stopTunnel_disturbs hs
    cases i with
    | start granted failure =>
      rcases failure with _ | (_ | _ | counted | _)
      · trivial
      · trivial
      · trivial
      · exact fun _ => Option.some_ne_none n
      · trivial
    | stop => exact hstop h.orderly
    | revoke => exact hstop h.orderly
    | destroy => exact hstop h.orderly
    | enter fd => trivial
    | exit fd =>
      intro hfd
      rw [List.mem_singleton.mp hfd] at h
      exact exit_disturbs n entered h
    | timeout => exact absurd h (timeout_disturbs n entered)

/-- The service takes the steps of the tunnel, as long as nothing disturbs it. -/
theorem step_tunnel (t : Tunnel) (i : Input) (h : Undisturbed t.service i) :
    (step t.service i).1 = (t.next i).service ∧ Restores t.service i := by
  cases t with
  | down n => exact step_down n i h
  | up n entered => exact step_up n entered i h

theorem restores_iff (t : Tunnel) (i : Input) : Restores t.service i ↔ Undisturbed t.service i :=
  ⟨undisturbed_of_restores t i, fun h => (step_tunnel t i h).2⟩

/-- Every command of a run restores what is wanted if and only if nothing disturbs the
service along it. -/
theorem run_restores_iff (is : List Input) :
    Along step Restores idle is ↔ Along step Undisturbed idle is := by
  refine along_iff_of_invariant step Undisturbed Restores (fun w => ∃ t : Tunnel, w = t.service)
    ?_ ?_ idle is
    ⟨.down 0, rfl⟩
  · rintro _ i ⟨t, rfl⟩
    exact restores_iff t i
  · rintro _ i ⟨t, rfl⟩ h
    exact ⟨t.next i, (step_tunnel t i h).1⟩

/-- The native proxy returns on its own: `vpn` stays set, and the next `ACTION_START` is
ignored. -/
theorem exit_keeps_tunnel :
    ¬ Along step Restores idle [.start true none, .enter 0, .exit 0] ∧
      run step idle [.start true none, .enter 0, .exit 0, .start true none] =
        run step idle [.start true none, .enter 0, .exit 0] := by
  refine ⟨?_, by decide +kernel⟩
  rintro ⟨-, -, h, -⟩
  have hrunning := (h.proxy 0).mp rfl
  simp [step, onStart, startTunnel, idle, Service.running] at hrunning

end PdaNetClient.Vpn
