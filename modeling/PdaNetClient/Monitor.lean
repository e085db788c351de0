import Mathlib.Logic.Function.Basic
import PdaNetClient.Runs

/-!
# `PdaNetMonitorService`

The monitor keeps one flag, `vpnServiceRunning`, and decides from the network of the
callback it handles. Its functions act on the flag and send intents to the VPN service;
the Boolean of a call says whether sending succeeds.
-/
namespace PdaNetClient.Monitor

open Runs

set_option autoImplicit false

structure Route where
  isDefaultRoute : Bool
  gateway : Option String
  deriving DecidableEq, Repr

abbrev LinkProperties := List Route

inductive Intent where
  | start | stop
  deriving DecidableEq, Repr

def pdanetGateway : String := "192.168.49.1"

/-- `lp.routes.firstOrNull { it.isDefaultRoute }?.gateway?.hostAddress` -/
def gateway (lp : LinkProperties) : Option String :=
  (lp.find? Route.isDefaultRoute).bind Route.gateway

def onPdaNet (lp : LinkProperties) : Prop := gateway lp = some pdanetGateway

instance (lp : LinkProperties) : Decidable (onPdaNet lp) := inferInstanceAs (Decidable (_ = _))

def startVpnService (sent : Bool) (running : Bool) : Bool × List Intent :=
  if sent then (true, [.start]) else (running, [])

def stopVpnService (sent : Bool) (running : Bool) : Bool × List Intent :=
  if !running then (running, [])
  else if sent then (false, [.stop]) else (running, [])

def checkNetwork (sent : Bool) (lp : Option LinkProperties) (running : Bool) : Bool × List Intent :=
  match lp with
  | none => (running, [])
  | some lp =>
    if onPdaNet lp then
      if !running then startVpnService sent running else (running, [])
    else if running then stopVpnService sent running else (running, [])

def onLost (sent : Bool) (running : Bool) : Bool × List Intent := stopVpnService sent running

/-! ## The set of networks -/

/-- The properties last reported for each available network, and the flag. -/
structure Networks where
  available : Nat → Option LinkProperties
  running : Bool

def noNetwork : Networks := ⟨fun _ => none, false⟩

inductive Callback where
  | onAvailable (network : Nat) (lp : LinkProperties)
  | onLinkPropertiesChanged (network : Nat) (lp : LinkProperties)
  | onLost (network : Nat)
  deriving DecidableEq, Repr

namespace Callback

def network : Callback → Nat
  | .onAvailable n _ | .onLinkPropertiesChanged n _ | .onLost n => n

def reported : Callback → Option LinkProperties
  | .onAvailable _ lp | .onLinkPropertiesChanged _ lp => some lp
  | .onLost _ => none

end Callback

/-- One callback; every intent can be sent. -/
def callback : Machine Networks Callback Intent := fun s c =>
  let r := match c with
    | .onAvailable _ lp | .onLinkPropertiesChanged _ lp => checkNetwork true (some lp) s.running
    | .onLost _ => onLost true s.running
  (⟨Function.update s.available c.network c.reported, r.1⟩, r.2)

/-- Some available network leads to PdaNet. -/
def Available (s : Networks) : Prop := ∃ n lp, s.available n = some lp ∧ onPdaNet lp

/-- The flag follows the networks, and a network that is not PdaNet does not stop the VPN. -/
structure Follows (s : Networks) (c : Callback) : Prop where
  flag : (callback s c).1.running = true ↔ Available (callback s c).1
  others : s.running = true → (∀ lp, s.available c.network = some lp → ¬ onPdaNet lp) →
    (callback s c).1.running = true

/-- The callback reports PdaNet, or no other available network is PdaNet. -/
def Decides (s : Networks) (c : Callback) : Prop :=
  (∃ lp, c.reported = some lp ∧ onPdaNet lp) ∨ ∀ n ≠ c.network, ∀ lp, s.available n = some lp →
    ¬ onPdaNet lp

/-- The flag after a callback depends on nothing but what the callback reports. -/
theorem callback_running (s : Networks) (c : Callback) :
    (callback s c).1.running = true ↔ ∃ lp, c.reported = some lp ∧ onPdaNet lp := by
  have hcheck (lp : LinkProperties) : (checkNetwork true (some lp) s.running).1 =
      true ↔ onPdaNet lp := by
    unfold checkNetwork startVpnService stopVpnService
    by_cases hlp : onPdaNet lp <;> cases s.running <;> simp [hlp]
  cases c with
  | onAvailable n lp => exact (hcheck lp).trans (by simp [Callback.reported])
  | onLinkPropertiesChanged n lp => exact (hcheck lp).trans (by simp [Callback.reported])
  | onLost n =>
    show (onLost true s.running).1 = true ↔ _
    cases h : s.running <;> simp [onLost, stopVpnService, Callback.reported]

/-- What is available after a callback. -/
theorem callback_available (s : Networks) (c : Callback) :
    Available (callback s c).1 ↔ (∃ lp, c.reported = some lp ∧ onPdaNet lp) ∨
      ∃ n, n ≠ c.network ∧ ∃ lp, s.available n = some lp ∧ onPdaNet lp := by
  constructor
  · rintro ⟨n, lp, hn, hlp⟩
    by_cases hc : n = c.network
    · subst hc
      exact .inl ⟨lp, by simpa [callback] using hn, hlp⟩
    · exact .inr ⟨n, hc, lp, by simpa [callback, hc] using hn, hlp⟩
  · rintro (⟨lp, hc, hlp⟩ | ⟨n, hc, lp, hn, hlp⟩)
    · exact ⟨c.network, lp, by simpa [callback] using hc, hlp⟩
    · exact ⟨n, lp, by simpa [callback, hc] using hn, hlp⟩

/-- The flag is right after a callback exactly when the callback decides. -/
theorem flag_iff_decides (s : Networks) (c : Callback) :
    ((callback s c).1.running = true ↔ Available (callback s c).1) ↔ Decides s c := by
  rw [callback_running, callback_available]
  constructor
  · intro h
    by_cases hreported : ∃ lp, c.reported = some lp ∧ onPdaNet lp
    · exact .inl hreported
    · refine .inr fun n hn lp hlp hpdanet => hreported (h.mpr (.inr ⟨n, hn, lp, hlp, hpdanet⟩))
  · rintro (hreported | hothers)
    · exact ⟨.inl, fun _ => hreported⟩
    · refine ⟨.inl, ?_⟩
      rintro (hreported | ⟨n, hn, lp, hlp, hpdanet⟩)
      · exact hreported
      · exact absurd hpdanet (hothers n hn lp hlp)

theorem follows_iff (s : Networks) (c : Callback) (h : s.running = true ↔ Available s) :
    Follows s c ↔ Decides s c := by
  refine ⟨fun hf => (flag_iff_decides s c).mp hf.flag,
    fun hd => ⟨(flag_iff_decides s c).mpr hd, ?_⟩⟩
  intro hrunning hnot
  obtain ⟨n, lp, hlp, hpdanet⟩ := h.mp hrunning
  have hother : n ≠ c.network := by
    rintro rfl
    exact hnot lp hlp hpdanet
  refine (callback_running s c).mpr (hd.resolve_right fun hothers => ?_)
  exact hothers n hother lp hlp hpdanet

/-- The VPN follows the available networks along a run if and only if each of its
callbacks decides. -/
theorem run_follows_iff (cs : List Callback) :
    Along callback Follows noNetwork cs ↔ Along callback Decides noNetwork cs := by
  refine along_iff_of_invariant callback Decides Follows (fun s => s.running = true ↔ Available s)
    follows_iff ?_
    noNetwork cs ?_
  · exact fun s c _ hd => (flag_iff_decides s c).mpr hd
  · simp [noNetwork, Available]

def pdanet : LinkProperties := [⟨true, some "192.168.49.1"⟩]

def home : LinkProperties := [⟨true, some "192.168.1.1"⟩]

/-- Another network is lost while PdaNet is available. -/
theorem other_network_stops :
    ¬ Along callback Follows noNetwork [.onAvailable 1 home, .onAvailable 2 pdanet, .onLost 1] := by
  rintro ⟨-, -, h, -⟩
  have hstopped := h.others (by decide) fun lp hlp => ?_
  · exact absurd hstopped (by decide)
  · have hhome : home = lp := by simpa [callback, Callback.network, Callback.reported] using hlp
    rw [← hhome]
    decide

end PdaNetClient.Monitor
