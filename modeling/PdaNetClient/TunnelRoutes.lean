import PdaNetClient.Prefixes
import PdaNetClient.VpnService

/-!
# The routes of the tunnel

What `startTunnel` gives to the builder: everything but 192.168.0.0/16 goes through the
tunnel. The routes are the siblings of that block and of those above it, so that an
address outside it is in exactly one of them.
-/
namespace PdaNetClient.Vpn

open Prefixes (Block)

set_option autoImplicit false

/-! ## Addresses -/

/-- The decimal number of the digits. -/
def number (digits : List Char) : Nat := digits.foldl (fun n c => 10 * n + (c.toNat - 48)) 0

/-- The address of a text of four numbers. -/
def ip4 (s : String) : Nat :=
  ((s.toList.splitOn '.').map number).foldl (fun n octet => 256 * n + octet) 0

/-- `addRoute(address, prefixLength)` -/
structure Route where
  address : String
  prefixLength : Nat
  deriving DecidableEq, Repr

namespace Route

def block (r : Route) : Block := ⟨ip4 r.address / 2 ^ (32 - r.prefixLength), 32 - r.prefixLength⟩

/-- The builder throws if the address has a bit behind the prefix. -/
def Accepted (r : Route) : Prop :=
  r.prefixLength ≤ 32 ∧ ip4 r.address % 2 ^ (32 - r.prefixLength) = 0

instance (r : Route) : Decidable r.Accepted := inferInstanceAs (Decidable (_ ∧ _))

/-- An address goes this way. -/
def Takes (r : Route) (a : BitVec 32) : Prop := r.block.Covers a.toNat

instance (r : Route) (a : BitVec 32) : Decidable (r.Takes a) :=
  inferInstanceAs (Decidable (r.block.Covers a.toNat))

end Route

def pdanetGateway : String := "192.168.49.1"

example : ip4 pdanetGateway = 0xC0A83101 := by decide +kernel

/-- The calls of `addRoute`. -/
def routes : List Route :=
  [⟨"0.0.0.0", 1⟩, ⟨"128.0.0.0", 2⟩, ⟨"192.0.0.0", 9⟩, ⟨"192.128.0.0", 11⟩, ⟨"192.160.0.0", 13⟩,
    ⟨"192.169.0.0", 16⟩, ⟨"192.170.0.0", 15⟩, ⟨"192.172.0.0", 14⟩, ⟨"192.176.0.0", 12⟩,
    ⟨"192.192.0.0", 10⟩, ⟨"193.0.0.0", 8⟩, ⟨"194.0.0.0", 7⟩, ⟨"196.0.0.0", 6⟩, ⟨"200.0.0.0", 5⟩,
    ⟨"208.0.0.0", 4⟩, ⟨"224.0.0.0", 3⟩]

/-- The block that is skipped. -/
def skipped : Route := ⟨"192.168.0.0", 16⟩

/-! ## What the routes take -/

theorem routes_siblings : (routes.map Route.block).Perm (skipped.block.siblings 16) := by
  decide +kernel

theorem skipped_top (a : BitVec 32) : (skipped.block.aboveBy 16).Covers a.toNat := by
  have htop : skipped.block.aboveBy 16 = ⟨0, 32⟩ := by decide +kernel
  rw [htop]
  exact Nat.div_eq_of_lt a.isLt

theorem routes_count (a : BitVec 32) :
    routes.countP (fun r => r.Takes a) = if skipped.Takes a then 0 else 1 := by
  have hsiblings := skipped.block.count_siblings a.toNat 16 (skipped_top a)
  rw [← routes_siblings.countP_eq, List.countP_map] at hsiblings
  exact hsiblings

theorem routes_free {a : BitVec 32} (h : skipped.Takes a) : ∀ r ∈ routes, ¬ r.Takes a := by
  have hcount := routes_count a
  rw [if_pos h, List.countP_eq_zero] at hcount
  exact fun r hr htakes => hcount r hr (decide_eq_true htakes)

theorem routes_unique {a : BitVec 32} (h : ¬ skipped.Takes a) :
    ∃ r, ∀ s, s ∈ routes ∧ s.Takes a ↔ s = r := by
  have hcount := routes_count a
  rw [if_neg h, List.countP_eq_length_filter] at hcount
  obtain ⟨r, hr⟩ := List.length_eq_one_iff.mp hcount
  refine ⟨r, fun s => ?_⟩
  have hmem : s ∈ routes.filter (fun r => r.Takes a) ↔ s ∈ routes ∧ s.Takes a := by simp
  rw [← hmem, hr, List.mem_singleton]

/-- The first address of a route goes this way and no other. -/
theorem route_needed {r : Route} (hr : r ∈ routes) : ∃ a, ∀ s, s ∈ routes ∧ s.Takes a ↔ s = r := by
  have hfirst : ∀ r ∈ routes, r.Takes (BitVec.ofNat 32 (ip4 r.address)) := by decide +kernel
  have htakes := hfirst r hr
  refine ⟨BitVec.ofNat 32 (ip4 r.address), ?_⟩
  by_cases hskipped : skipped.Takes (BitVec.ofNat 32 (ip4 r.address))
  · exact absurd htakes (routes_free hskipped r hr)
  · obtain ⟨t, ht⟩ := routes_unique hskipped
    have hrt : r = t := (ht r).mp ⟨hr, htakes⟩
    exact fun s => by rw [ht s, hrt]

/-- The builder accepts all of the routes. Each address outside 192.168.0.0/16 is in exactly one of
them, and no address in that block is in any, so that what is sent to the proxy does not come
back; without any one of the routes some address would be left out. -/
theorem routes_exact :
    (∀ r ∈ routes, r.Accepted) ∧
      (∀ a, if skipped.Takes a then ∀ r ∈ routes, ¬ r.Takes a else ∃ r, ∀ s, s ∈ routes ∧
        s.Takes a ↔ s = r) ∧
      (∀ r ∈ routes, ∃ a, ∀ s, s ∈ routes ∧ s.Takes a ↔ s = r) ∧
      ∀ r ∈ routes, ¬ r.Takes (BitVec.ofNat 32 (ip4 pdanetGateway)) := by
  refine ⟨by decide +kernel, fun a => ?_, fun r hr => route_needed hr,
    routes_free (by decide +kernel)⟩
  split
  · exact routes_free ‹_›
  · exact routes_unique ‹_›

end PdaNetClient.Vpn
