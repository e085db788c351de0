import PdaNetClient.IpAdmission
import PdaNetClient.IpExtension

/-!
# IPv6 buffers

What `handle_ip` makes of a buffer of version 6. The type in the fixed header decides: a
packet with an extension header reaches no handler, and one without is passed on whatever
its payload length says, with all the bytes behind the header.
-/
namespace PdaNetClient.Ip

open Reading Table
open Http (Memory memoryOf)

set_option autoImplicit false

/-! ## The flow of a packet -/

/-- The flow that the headers name. -/
def flowAt (version : Nat) (p : Located) (mem : Memory) : Flow where
  version := version
  protocol := p.protocol
  saddr := ((readAddrs version).value mem).1
  daddr := ((readAddrs version).value mem).2
  sport := (be16 (if isIcmp p.protocol then p.payload + 4 else p.payload)).value mem
  dport := (be16 (if isIcmp p.protocol then p.payload + 4 else p.payload + 2)).value mem
  syn := decide (p.protocol = ipprotoTcp) && (mem (p.payload + 13)).toNat.testBit 1

/-- The flow is found if the transport header is there. -/
theorem readFlow_value (abi : Abi) {length version : Nat} {p : Located} (mem : Memory)
    (hupper : isUpperLayer p.protocol) (hp : p.payload ≤ length) (hshort : length < 2 ^ 16) :
    (readFlow abi length version p).value mem =
      if p.payload + headerSize p.protocol ≤ length then some (flowAt version p mem) else none := by
  have hle := sizeSub_of_le abi hp hshort
  have hsize : length - p.payload < headerSize p.protocol ↔
    ¬ p.payload + headerSize p.protocol ≤ length := by omega
  simp only [readFlow, ↓value_bind, hle]
  unfold flowAt
  unfold headerSize at hsize ⊢
  rcases isUpperLayer_cases hupper with hk | ⟨hicmp, hk⟩ | ⟨hicmp, hudp, hk⟩
  · have htcp : p.protocol ≠ ipprotoTcp := fun h => absurd (h ▸ hk) (by decide)
    simp only [if_pos hk, ↓value_ite, value_pure, htcp, decide_false, Bool.false_and] at hsize ⊢
    simp only [hsize, ite_not]
    rfl
  · have htcp : p.protocol ≠ ipprotoTcp := fun h => absurd (h ▸ hk) (by decide)
    simp only [if_neg hicmp, if_pos hk, ↓value_ite, value_pure, htcp, decide_false,
      Bool.false_and] at hsize ⊢
    simp only [hsize, ite_not]
    rfl
  · have hnot : ¬ isIcmp ipprotoTcp ∧ ipprotoTcp ≠ ipprotoUdp := by decide
    simp only [hk, if_neg hnot.1, if_neg hnot.2, if_true, ↓value_ite, value_pure, decide_true,
      Bool.true_and] at hsize ⊢
    simp only [hsize, ite_not]
    rfl

section

variable (abi : Abi) (c : Config) (l : Loop) {length version : Nat} {p : Located} {mem : Memory}

/-- The handler is called for the flow, unless the header is too short or a limit is reached. -/
theorem dispatch_passes_iff (hupper : isUpperLayer p.protocol) (hp : p.payload ≤ length)
    (hshort : length < 2 ^ 16) (f : Flow) (call : Call) :
    (dispatch abi c l length version p).value mem = .pass (f, call) ↔
      p.payload + headerSize p.protocol ≤ length ∧ f = flowAt version p mem ∧
      overLimit c l f = false ∧
        call = (protocolCall abi length p).value mem := by
  have hflow : (readFlow abi length version p).value mem = _ :=
    readFlow_value abi mem hupper hp hshort
  by_cases hroom : p.payload + headerSize p.protocol ≤ length
  · rw [if_pos hroom] at hflow
    cases hlimit : overLimit c l (flowAt version p mem) with
    | true =>
      rw [(dispatch_limit abi c l length version hflow hlimit).1]
      refine iff_of_false (by simp) ?_
      rintro ⟨-, rfl, hunder, -⟩
      simp [hlimit] at hunder
    | false =>
      rw [(dispatch_call abi c l length version hflow hlimit hupper).1]
      constructor
      · rintro ⟨⟩
        exact ⟨hroom, rfl, hlimit, rfl⟩
      · rintro ⟨-, rfl, -, rfl⟩
        rfl
  · rw [if_neg hroom] at hflow
    rw [(dispatch_none abi c l length version hflow).1]
    exact iff_of_false (by simp) fun h => hroom h.1

/-- Behind a header of another type nothing happens. -/
theorem dispatch_unknown (hupper : ¬ isUpperLayer p.protocol) :
    Dropped (dispatch abi c l length version p) (readFlow abi length version p) mem := by
  cases hflow : (readFlow abi length version p).value mem with
  | none => exact dispatch_none abi c l length version hflow
  | some f => exact dispatch_other abi c l length version hflow hupper

/-- The packet is passed on or dropped: there is no loop here. -/
theorem dispatch_ends : (dispatch abi c l length version p).value mem ≠ .loops := by
  by_cases hupper : isUpperLayer p.protocol
  · cases hflow : (readFlow abi length version p).value mem with
    | none => simp [(dispatch_none abi c l length version hflow).1]
    | some f =>
      cases hlimit : overLimit c l f with
      | true => simp [(dispatch_limit abi c l length version hflow hlimit).1]
      | false => simp [(dispatch_call abi c l length version hflow hlimit hupper).1]
  · have hdropped : Dropped (dispatch abi c l length version p) _ mem :=
      dispatch_unknown abi c l hupper
    simp [hdropped.1]

end

/-! ## The data of a call -/

/-- The call is about the header at `payload` and all the bytes behind it. -/
structure WhollyIn (length payload : Nat) (k : Call) : Prop where
  minimal : k.minimal
  transport : k.payload + k.headerLength ≤ length
  payload : k.payload = payload
  data : k.data = k.payload + k.dataOffset
  datalen : k.data ≤ length ∧ k.datalen = length - k.data

/-- The data offset of TCP is the one field that is not tested. -/
theorem protocolCall_inside (abi : Abi) {length : Nat} (p : Located) {mem : Memory}
    (hupper : isUpperLayer p.protocol) (hroom : p.payload + headerSize p.protocol ≤ length)
    (hshort : length < 2 ^ 16) :
    WhollyIn length p.payload ((protocolCall abi length p).value mem) ↔
      (p.protocol = ipprotoTcp → 5 ≤ doffAt mem p.payload ∧
        p.payload + 4 * doffAt mem p.payload ≤ length) := by
  unfold protocolCall
  unfold headerSize at hroom
  rcases isUpperLayer_cases hupper with hk | ⟨hicmp, hk⟩ | ⟨hicmp, hudp, hk⟩
  · have htcp : p.protocol ≠ ipprotoTcp := fun h => absurd (h ▸ hk) (by decide)
    simp only [if_pos hk, sizeofIcmp] at hroom ⊢
    have hlen : sizeSub abi length p.payload = length - p.payload :=
      sizeSub_of_le abi (by omega) hshort
    refine iff_of_true ⟨trivial, ?_, rfl, rfl, ?_, hlen⟩ fun h => absurd h htcp
    · show p.payload + 8 ≤ length
      omega
    · show p.payload ≤ length
      omega
  · have htcp : p.protocol ≠ ipprotoTcp := fun h => absurd (h ▸ hk) (by decide)
    simp only [if_neg hicmp, if_pos hk, sizeofUdphdr] at hroom ⊢
    have hlen : sizeSub abi length (p.payload + 8) = length - (p.payload + 8) :=
      sizeSub_of_le abi hroom hshort
    exact iff_of_true ⟨trivial, hroom, rfl, rfl, hroom, hlen⟩ fun h => absurd h htcp
  · simp only [if_neg hicmp, if_neg hudp, sizeofTcphdr] at hroom ⊢
    have hdoff := (mem (p.payload + 12)).toNat_lt
    constructor
    · exact fun h _ => ⟨h.minimal, h.transport⟩
    · intro h
      obtain ⟨hmin, hin⟩ := h hk
      have hopt := tcpoptlen_of_doff hmin (by simp only [doffAt]; omega)
      have hdata : ((tcpCall length p.payload).value mem).data =
          p.payload + 4 * doffAt mem p.payload := by
        rw [← hopt, ← Nat.add_assoc]
        rfl
      have hlen : ((tcpCall length p.payload).value mem).datalen =
          castU16 (length - ((tcpCall length p.payload).value mem).data : Int) := rfl
      refine ⟨hmin, hin, rfl, hdata, ?_, ?_⟩
      · rw [hdata]
        exact hin
      · rw [hlen, hdata]
        simp only [castU16]
        omega

/-! ## Every buffer -/

section

variable (abi : Abi) (c : Config) (l : Loop) (turns : Nat) {length : Nat} {mem : Memory}

theorem handleIp6_short (hversion : (mem 0).toNat / 16 = 6) (h : length < sizeofIp6Hdr) :
    (handleIp abi c l turns length).value mem = .drop ∧
    ∀ P, (handleIp abi c l turns length).Within P mem ↔ P 0 := by
  refine ⟨?_, fun P => ?_⟩ <;> simp [handleIp, hversion, locate, locateIp6, h]

/-- The type in the fixed header has a handler. -/
theorem handleIp6_upper (hversion : (mem 0).toNat / 16 = 6) (h : sizeofIp6Hdr ≤ length)
    (hupper : isUpperLayer (mem 6)) :
    (handleIp abi c l turns length).value mem =
      (dispatch abi c l length 6 ⟨mem 6, sizeofIp6Hdr⟩).value mem ∧
      ∀ P, (handleIp abi c l turns length).Within P mem ↔
        P 0 ∧ P 6 ∧ (dispatch abi c l length 6 ⟨mem 6, sizeofIp6Hdr⟩).Within P mem := by
  obtain ⟨hvalue, hwithin⟩ := locate6_upper turns h hupper
  refine ⟨?_, fun P => ?_⟩ <;> simp [handleIp, hversion, hvalue, hwithin]

/-- It has none: the packet is lost, if the walk ends. -/
theorem handleIp6_walk (hversion : (mem 0).toNat / 16 = 6) (h : sizeofIp6Hdr ≤ length)
    (hupper : ¬ isUpperLayer (mem 6)) :
    (handleIp abi c l turns length).value mem =
        (if (walk turns (mem 6) sizeofIp6Hdr).value mem = none then .loops else .drop) ∧
      ∀ P, (handleIp abi c l turns length).Within P mem ↔
      P 0 ∧ (locate 6 turns length).Within P mem ∧
        ((walk turns (mem 6) sizeofIp6Hdr).value mem = none ∨
          (readFlow abi length 6 ⟨mem 6, sizeofIp6Hdr⟩).Within P mem) := by
  have hvalue := (locate6_walk turns h hupper).1
  obtain ⟨hdrop, hreads⟩ : Dropped (dispatch abi c l length 6 ⟨mem 6, sizeofIp6Hdr⟩) _ mem :=
    dispatch_unknown abi c l hupper
  cases hwalk : (walk turns (mem 6) sizeofIp6Hdr).value mem with
  | none =>
    rw [hwalk, if_pos rfl] at hvalue
    refine ⟨?_, fun P => ?_⟩ <;> simp [handleIp, hversion, hvalue]
  | some r =>
    rw [hwalk, if_neg (by simp)] at hvalue
    refine ⟨?_, fun P => ?_⟩ <;> simp [handleIp, hversion, hvalue, hdrop, hreads]

/-- The reads behind a fixed header that is there. -/
theorem readFlow6_within (h : sizeofIp6Hdr ≤ length) (hshort : length < 2 ^ 16) :
    (readFlow abi length 6 ⟨mem 6, sizeofIp6Hdr⟩).Within (· < length) mem := by
  have h40 : 40 ≤ length := h
  have haddrs : (readAddrs 6).Within (· < length) mem := by
    simp only [readAddrs, show ¬ (6 : Nat) = 4 by decide, if_false, within_bind,
      within_pure, and_true]
    exact ⟨lookMany_within fun i _ _ => by omega, lookMany_within fun i _ _ => by omega⟩
  have hle : sizeSub abi length 40 = length - 40 := sizeSub_of_le abi h40 hshort
  simp only [readFlow, ↓within_bind, haddrs, true_and, sizeofIp6Hdr, hle, sizeofIcmp, sizeofUdphdr,
    sizeofTcphdr]
  by_cases hicmp : isIcmp (mem 6)
  · simp only [if_pos hicmp, ↓within_ite, ↓within_bind, within_pure, within_be16, and_true]
    split
    · trivial
    · omega
  · by_cases hudp : mem 6 = ipprotoUdp
    · simp only [if_neg hicmp, if_pos hudp, ↓within_ite, ↓within_bind, within_pure,
        within_be16, and_true]
      split
      · trivial
      · omega
    · by_cases htcp : mem 6 = ipprotoTcp
      · simp only [if_neg hicmp, if_neg hudp, if_pos htcp, ↓within_ite, ↓within_bind, within_pure,
          within_be16, within_u8, and_true]
        split
        · trivial
        · omega
      · simp only [if_neg hicmp, if_neg hudp, if_neg htcp, within_pure]

theorem dispatch6_within (h : sizeofIp6Hdr ≤ length) (hshort : length < 2 ^ 16)
    (hupper : isUpperLayer (mem 6)) :
    (dispatch abi c l length 6 ⟨mem 6, sizeofIp6Hdr⟩).Within (· < length) mem := by
  have hreads : (readFlow abi length 6 ⟨mem 6, sizeofIp6Hdr⟩).Within (· < length) mem :=
    readFlow6_within abi h hshort
  cases hflow : (readFlow abi length 6 ⟨mem 6, sizeofIp6Hdr⟩).value mem with
  | none => exact ((dispatch_none abi c l length 6 hflow).2 _).mpr hreads
  | some f =>
    cases hlimit : overLimit c l f with
    | true => exact ((dispatch_limit abi c l length 6 hflow hlimit).2 _).mpr hreads
    | false =>
      have hroom := room_of_readFlow abi mem hshort h hupper hflow
      exact ((dispatch_call abi c l length 6 hflow hlimit hupper).2 _).mpr ⟨hreads,
        protocolCall_within abi hupper hroom⟩

/-- A handler is called exactly when the fixed header names its protocol and its header is
there, whatever the payload length says. -/
theorem handleIp6_passes_iff (hversion : (mem 0).toNat / 16 = 6) (hshort : length < 2 ^ 16)
    (f : Flow) (call : Call) :
    (handleIp abi c l turns length).value mem = .pass (f, call) ↔
      isUpperLayer (mem 6) ∧ sizeofIp6Hdr + headerSize (mem 6) ≤ length ∧
      f = flowAt 6 ⟨mem 6, sizeofIp6Hdr⟩ mem ∧
        overLimit c l f = false ∧ call =
          (protocolCall abi length ⟨mem 6, sizeofIp6Hdr⟩).value mem := by
  by_cases h : sizeofIp6Hdr ≤ length
  · by_cases hupper : isUpperLayer (mem 6)
    · rw [(handleIp6_upper abi c l turns hversion h hupper).1,
        dispatch_passes_iff abi c l hupper h hshort f call, and_iff_right hupper]
    · rw [(handleIp6_walk abi c l turns hversion h hupper).1]
      refine iff_of_false ?_ fun hpass => hupper hpass.1
      split
      · simp
      · simp
  · rw [(handleIp6_short abi c l turns hversion (Nat.lt_of_not_le h)).1]
    exact iff_of_false (by simp) fun hpass => h (Nat.le_trans (Nat.le_add_right _ _) hpass.2.1)

/-- The one place where the program may read behind the packet, or not end, is the walk. -/
theorem handleIp6_safe_iff (hversion : (mem 0).toNat / 16 = 6) (hlength : 1 ≤ length)
    (hshort : length < 2 ^ 16) :
    (∃ turns, (handleIp abi c l turns length).value mem ≠ .loops) ∧
        (∀ turns, (handleIp abi c l turns length).Within (· < length) mem) ↔
      length < sizeofIp6Hdr ∨ isUpperLayer (mem 6) ∨ Stops mem length sizeofIp6Hdr := by
  rw [← walkSafe_iff]
  by_cases h : sizeofIp6Hdr ≤ length
  · have hsix : 6 < length := Nat.lt_of_lt_of_le (by decide) h
    by_cases hupper : isUpperLayer (mem 6)
    · have hwithin := dispatch6_within abi c l h hshort hupper
      refine iff_of_true ⟨⟨0, ?_⟩, fun turns => ?_⟩ (walkSafe_iff.mpr (.inr (.inl hupper)))
      · rw [(handleIp6_upper abi c l 0 hversion h hupper).1]
        exact dispatch_ends abi c l
      · exact ((handleIp6_upper abi c l turns hversion h hupper).2 _).mpr ⟨hlength, hsix, hwithin⟩
    · have hreads : (readFlow abi length 6 ⟨mem 6, sizeofIp6Hdr⟩).Within (· < length) mem :=
        readFlow6_within abi h hshort
      unfold WalkSafe
      refine and_congr (exists_congr fun turns => ?_) (forall_congr' fun turns => ?_)
      · rw [(handleIp6_walk abi c l turns hversion h hupper).1, (locate6_walk turns h hupper).1]
        split
        · simp
        · simp
      · rw [(handleIp6_walk abi c l turns hversion h hupper).2]
        exact ⟨fun hall => hall.2.1, fun hlocate => ⟨hlength, hlocate, .inr hreads⟩⟩
  · have hshort40 := Nat.lt_of_not_le h
    refine iff_of_true ⟨⟨0, ?_⟩, fun turns => ?_⟩ (walkSafe_iff.mpr (.inl hshort40))
    · simp [(handleIp6_short abi c l 0 hversion hshort40).1]
    · exact ((handleIp6_short abi c l turns hversion hshort40).2 _).mpr hlength

/-- What happens to a buffer of version 6: which packets reach a handler, that all of the
header and its data are then inside the packet exactly when TCP's data offset is in order, and
when the program stays inside the packet and ends. -/
theorem ip6_admission (hversion : (mem 0).toNat / 16 = 6) (hlength : 1 ≤ length)
    (hshort : length < 2 ^ 16) :
    (∀ turns f call, (handleIp abi c l turns length).value mem = .pass (f, call) ↔
        isUpperLayer (mem 6) ∧ sizeofIp6Hdr + headerSize (mem 6) ≤ length ∧
        f = flowAt 6 ⟨mem 6, sizeofIp6Hdr⟩ mem ∧
          overLimit c l f = false ∧ call =
            (protocolCall abi length ⟨mem 6, sizeofIp6Hdr⟩).value mem) ∧
      (∀ turns f call, (handleIp abi c l turns length).value mem = .pass (f, call) →
        (WhollyIn length sizeofIp6Hdr call ↔
          (mem 6 = ipprotoTcp → 5 ≤ doffAt mem sizeofIp6Hdr ∧
            sizeofIp6Hdr + 4 * doffAt mem sizeofIp6Hdr ≤ length))) ∧
        ((∃ turns, (handleIp abi c l turns length).value mem ≠ .loops) ∧
            (∀ turns, (handleIp abi c l turns length).Within (· < length) mem) ↔
          length < sizeofIp6Hdr ∨ isUpperLayer (mem 6) ∨ Stops mem length sizeofIp6Hdr) := by
  refine ⟨fun turns => handleIp6_passes_iff abi c l turns hversion hshort, ?_,
    handleIp6_safe_iff abi c l hversion hlength hshort⟩
  intro turns f call hpass
  obtain ⟨hupper, hroom, -, -, hcall⟩ :=
    (handleIp6_passes_iff abi c l turns hversion hshort f call).mp hpass
  rw [hcall]
  exact protocolCall_inside abi ⟨mem 6, sizeofIp6Hdr⟩ hupper hroom hshort

end

/-- A header without data, behind a fixed header of its type. -/
theorem ip6_admission_datagram : ∃ f call,
    (handleIp .arm64V8a (plainConfig 10 true) empty 0 48).value (packet6 17 plainUdp) =
      .pass (f, call) ∧
      WhollyIn 48 40 call ∧ f.dport = 53 := by
  have hversion : (packet6 17 plainUdp 0).toNat / 16 = 6 := by decide
  have hlength : 1 ≤ 48 := by decide
  have hall := ip6_admission .arm64V8a (plainConfig 10 true) empty hversion hlength (by decide)
  have hpass := (hall.1 0 _ _).mpr ⟨by decide, by decide, rfl, by decide, rfl⟩
  exact ⟨_, _, hpass, (hall.2.1 0 _ _ hpass).mpr (fun h => absurd h (by decide)), by decide⟩

end PdaNetClient.Ip
