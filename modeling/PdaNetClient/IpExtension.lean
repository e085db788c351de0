import PdaNetClient.IpPacket

/-!
# Extension headers of IPv6

The walk of `handle_ip` over the extension headers. It looks one header ahead, and ends
with a protocol that is never an upper-layer one; so it skips no header at all. Its stride
is the length field in bytes, kept in 16 bits and not compared with the length of the packet.
-/
namespace PdaNetClient.Ip

open Reading
open Http (Memory memoryOf)

set_option autoImplicit false

/-- `k` extension headers in the standard layout, from a header of type `protocol` at `off`,
and an upper-layer header `p` at `e`. -/
inductive Chain (mem : Memory) (length : Nat) : UInt8 → Nat → Nat → UInt8 → Nat → Prop where
  | upper {p : UInt8} {off : Nat} : isUpperLayer p → off ≤ length → Chain mem length p off 0 p off
  | extension {protocol p : UInt8} {off k e : Nat} : isLowerLayer protocol →
      off + 8 * ((mem (off + 1)).toNat + 1) ≤ length →
      Chain mem length (mem off) (off + 8 * ((mem (off + 1)).toNat + 1)) k p e →
      Chain mem length protocol off (k + 1) p e

/-- The walk stops at a header that names no lower layer, before it has to look outside the
packet. -/
inductive Stops (mem : Memory) (length : Nat) : Nat → Prop where
  | here {off : Nat} : off < length → ¬ isLowerLayer (mem off) → Stops mem length off
  | next {off : Nat} : off + 1 < length → isLowerLayer (mem off) →
      Stops mem length (castU16 (off + (8 + (mem (off + 1)).toNat) : Nat)) → Stops mem length off

/-- The headers of IPv6 are read to an end, and within the packet. -/
def WalkSafe (length : Nat) (mem : Memory) : Prop :=
  (∃ fuel, (locate 6 fuel length).value mem ≠ .loops) ∧
    ∀ fuel, (locate 6 fuel length).Within (· < length) mem

theorem not_upper_of_lower {protocol : UInt8} (h : isLowerLayer protocol) :
    ¬ isUpperLayer protocol := by
  rcases h with rfl | rfl | rfl | rfl | rfl | rfl | rfl | rfl <;> decide

section

variable {mem : Memory} {length : Nat}

/-- One turn of the loop. -/
theorem walk_next (fuel : Nat) {protocol : UInt8} {off : Nat} (hp : ¬ isUpperLayer protocol)
    (h : isLowerLayer (mem off)) :
    (walk (fuel + 1) protocol off).value mem =
        (walk fuel (mem off) (castU16 (off + (8 + (mem (off + 1)).toNat) : Nat))).value mem ∧
      ∀ P, (walk (fuel + 1) protocol off).Within P mem ↔ P off ∧ P (off + 1) ∧
        (walk fuel (mem off) (castU16 (off + (8 + (mem (off + 1)).toNat) : Nat))).Within P mem := by
  refine ⟨?_, fun P => ?_⟩ <;> simp [walk, hp, h]

theorem walk_here (fuel : Nat) (protocol : UInt8) {off : Nat} (h : ¬ isLowerLayer (mem off)) :
    (walk (fuel + 1) protocol off).value mem = some (protocol, off) ∧
      ∀ P, (walk (fuel + 1) protocol off).Within P mem ↔ P off := by
  refine ⟨?_, fun P => ?_⟩ <;> simp [walk, h]

/-- The protocol of the walk stays one that ends nothing. -/
theorem walk_protocol {fuel : Nat} {protocol : UInt8} {off : Nat} {r : UInt8 × Nat}
    (hp : ¬ isUpperLayer protocol)
    (h : (walk fuel protocol off).value mem = some r) : ¬ isUpperLayer r.1 := by
  induction fuel generalizing protocol off with
  | zero => cases h
  | succ fuel ih =>
    by_cases hlower : isLowerLayer (mem off)
    · rw [(walk_next fuel hp hlower).1] at h
      exact ih (not_upper_of_lower hlower) h
    · rw [(walk_here fuel protocol hlower).1] at h
      injection h with h
      rwa [← h]

/-- A walk that ends in time, within the packet. -/
theorem stops_of_walk (fuel : Nat) {protocol : UInt8} {off : Nat} (hp : ¬ isUpperLayer protocol)
    (hend : (walk fuel protocol off).value mem ≠ none)
    (hreads : (walk fuel protocol off).Within (· < length) mem) :
    Stops mem length off := by
  induction fuel generalizing protocol off with
  | zero => exact absurd rfl hend
  | succ fuel ih =>
    by_cases hlower : isLowerLayer (mem off)
    · obtain ⟨hvalue, hwithin⟩ := walk_next fuel hp hlower
      rw [hvalue] at hend
      obtain ⟨-, hoff, hreads⟩ := (hwithin _).mp hreads
      exact .next hoff hlower (ih (not_upper_of_lower hlower) hend hreads)
    · exact .here (((walk_here fuel protocol hlower).2 _).mp hreads) hlower

theorem walk_of_stops {protocol : UInt8} {off : Nat} (hp : ¬ isUpperLayer protocol)
    (h : Stops mem length off) :
    (∃ fuel, (walk fuel protocol off).value mem ≠ none) ∧
    ∀ fuel, (walk fuel protocol off).Within (· < length) mem := by
  induction h generalizing protocol with
  | here hoff hlower =>
    refine ⟨⟨1, by simp [(walk_here 0 protocol hlower).1]⟩, fun fuel => ?_⟩
    cases fuel with
    | zero => exact within_pure _ _ _
    | succ fuel => exact ((walk_here fuel protocol hlower).2 _).mpr hoff
  | next hoff hlower _ ih =>
    obtain ⟨⟨fuel, hend⟩, hreads⟩ := ih (not_upper_of_lower hlower)
    refine ⟨⟨fuel + 1, by rwa [(walk_next fuel hp hlower).1]⟩, fun fuel => ?_⟩
    cases fuel with
    | zero => exact within_pure _ _ _
    | succ fuel =>
      exact ((walk_next fuel hp hlower).2 _).mpr ⟨Nat.lt_of_succ_lt hoff, hoff, hreads fuel⟩

/-! ## The headers of a packet -/

theorem Chain.isUpper {protocol p : UInt8} {off k e : Nat}
    (h : Chain mem length protocol off k p e) : isUpperLayer p := by
  induction h with
  | upper hp _ => exact hp
  | extension _ _ _ ih => exact ih

theorem locate6_upper (fuel : Nat) (hlen : sizeofIp6Hdr ≤ length) (h : isUpperLayer (mem 6)) :
    (locate 6 fuel length).value mem = .pass ⟨mem 6, sizeofIp6Hdr⟩ ∧
      ∀ P, (locate 6 fuel length).Within P mem ↔ P 6 := by
  have hshort : ¬ length < sizeofIp6Hdr := Nat.not_lt.mpr hlen
  refine ⟨?_, fun P => ?_⟩ <;> simp [locate, locateIp6, hshort, h]

/-- Whatever the walk finds, the packet is taken for one of its first header's type. -/
theorem locate6_walk (fuel : Nat) (hlen : sizeofIp6Hdr ≤ length) (h : ¬ isUpperLayer (mem 6)) :
    (locate 6 fuel length).value mem =
        (if (walk fuel (mem 6) sizeofIp6Hdr).value mem =
          none then .loops else .pass ⟨mem 6, sizeofIp6Hdr⟩) ∧
      ∀ P, (locate 6 fuel length).Within P mem ↔
      P 6 ∧ (walk fuel (mem 6) sizeofIp6Hdr).Within P mem := by
  have hshort : ¬ length < sizeofIp6Hdr := Nat.not_lt.mpr hlen
  cases hwalk : (walk fuel (mem 6) sizeofIp6Hdr).value mem with
  | none => refine ⟨?_, fun P => ?_⟩ <;> simp [locate, locateIp6, hshort, h, hwalk]
  | some r =>
    have hr := walk_protocol h hwalk
    refine ⟨?_, fun P => ?_⟩ <;> simp [locate, locateIp6, hshort, h, hwalk, hr]

/-- The payload behind the chain is found exactly when the chain has no extension header. -/
theorem selects_iff {k e : Nat} {p : UInt8} (h : Chain mem length (mem 6) sizeofIp6Hdr k p e) :
    (∃ fuel, (locate 6 fuel length).value mem = .pass ⟨p, e⟩) ↔ k = 0 := by
  generalize hfirst : mem 6 = first at h
  cases h with
  | upper hp hle =>
    subst hfirst
    exact iff_of_true ⟨0, (locate6_upper 0 hle hp).1⟩ rfl
  | extension hlower hle hrest =>
    subst hfirst
    have hlen : sizeofIp6Hdr ≤ length := by omega
    refine iff_of_false ?_ (Nat.succ_ne_zero _)
    rintro ⟨fuel, hvalue⟩
    rw [(locate6_walk fuel hlen (not_upper_of_lower hlower)).1] at hvalue
    split at hvalue
    · cases hvalue
    · injection hvalue with hvalue
      injection hvalue with hp _
      exact not_upper_of_lower (hp ▸ hlower) hrest.isUpper

theorem walkSafe_iff :
    WalkSafe length mem ↔ length < sizeofIp6Hdr ∨ isUpperLayer (mem 6) ∨
    Stops mem length sizeofIp6Hdr := by
  by_cases hlen : sizeofIp6Hdr ≤ length
  · have hsix : 6 < length := Nat.lt_of_lt_of_le (by decide) hlen
    by_cases hupper : isUpperLayer (mem 6)
    · have hlocate (fuel : Nat) := locate6_upper fuel hlen hupper
      refine iff_of_true ⟨⟨0, by simp [hlocate]⟩, fun fuel => ((hlocate fuel).2 _).mpr hsix⟩
        (.inr (.inl hupper))
    · have hlocate (fuel : Nat) := locate6_walk fuel hlen hupper
      constructor
      · rintro ⟨⟨fuel, hend⟩, hreads⟩
        refine .inr (.inr (stops_of_walk fuel hupper ?_ (((hlocate fuel).2 _).mp (hreads fuel)).2))
        intro hnone
        simp [hlocate, hnone] at hend
      · intro hstops
        have hstops : Stops mem length sizeofIp6Hdr :=
          (hstops.resolve_left (Nat.not_lt.mpr hlen)).resolve_left hupper
        obtain ⟨⟨fuel, hend⟩, hreads⟩ := walk_of_stops hupper hstops
        refine ⟨⟨fuel, by simp [hlocate, hend]⟩,
          fun fuel => ((hlocate fuel).2 _).mpr ⟨hsix, hreads fuel⟩⟩
  · have hshort : length < sizeofIp6Hdr := Nat.not_le.mp hlen
    refine iff_of_true ⟨⟨0, ?_⟩, fun fuel => ?_⟩ (.inl hshort) <;> simp [locate, locateIp6, hshort]

/-- For a well-formed chain, protocol and payload are found if and only if there is nothing
to skip; and for any buffer, the walk ends within the packet if and only if there is no walk
or its own stride leads to a header that stops it in time. -/
theorem extension_headers_iff (length : Nat) (mem : Memory) :
    (∀ k p e, Chain mem length (mem 6) sizeofIp6Hdr k p e →
        ((∃ fuel, (locate 6 fuel length).value mem = .pass ⟨p, e⟩) ↔ k = 0)) ∧
      (WalkSafe length mem ↔ length < sizeofIp6Hdr ∨ isUpperLayer (mem 6) ∨
        Stops mem length sizeofIp6Hdr) :=
  ⟨fun _ _ _ h => selects_iff h, walkSafe_iff⟩

end

/-- An IPv6 header with a first header of type `nxt`, and what follows it. -/
def packet6 (nxt : UInt8) (rest : Bytes) : Memory :=
  memoryOf ([0x60, 0, 0, 0, 0, UInt8.ofNat rest.length, nxt, 64] ++ List.replicate 32 1 ++
    rest) fun _ => 0

/-- Hop-by-hop options of 8 bytes before a TCP header; and a packet that ends with the first
byte of an extension header. -/
theorem extension_header_lost :
    (Chain (packet6 0 (6 :: List.replicate 27 0)) 68 0 40 1 6 48 ∧
        ¬ ∃ fuel, (locate 6 fuel 68).value (packet6 0 (6 :: List.replicate 27 0)) = .pass ⟨6, 48⟩) ∧
      ¬ WalkSafe 41 (packet6 0 [0]) := by
  refine ⟨⟨.extension (by decide) (by decide) (.upper (by decide) (by decide)), ?_⟩, fun h => ?_⟩
  · rintro ⟨fuel, h⟩
    have hlen : sizeofIp6Hdr ≤ 68 := by decide
    have hnext : ¬ isUpperLayer (packet6 0 (6 :: List.replicate 27 0) 6) := by decide
    rw [(locate6_walk fuel hlen hnext).1] at h
    split at h
    · cases h
    · exact absurd h (by decide)
  · exact absurd (h.2 1 41 (by decide)) (by decide)

end PdaNetClient.Ip
