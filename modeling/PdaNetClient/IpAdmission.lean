import Mathlib.Data.Nat.Bitwise
import PdaNetClient.IpPacket

/-!
# Admission of IPv4 packets

Which buffers `handle_ip` hands to a protocol handler, and what is read of them on the
way. The fields that are tested are tested in time; but the length of the header is used
without a look at it, the More-Fragments bit is looked for in the wrong byte, and the data
offset of TCP is not compared with anything.
-/
namespace PdaNetClient.Ip

open Reading Table
open Http (Memory memoryOf)

set_option autoImplicit false

/-! ## The header -/

def ihl (mem : Memory) : Nat := (mem 0).toNat % 16

def totLen (mem : Memory) : Nat := 256 * (mem 2).toNat + (mem 3).toNat

/-- The bit of the flags that are the upper three bits of byte 6. -/
def moreFragments (mem : Memory) : Prop := (mem 6).toNat / 32 % 2 = 1

/-- The bit that `frag_off & IP_MF` finds: it is in the byte with the low part of the offset. -/
def fragmentTested (mem : Memory) : Prop := (mem 7).toNat / 32 % 2 = 1

instance (mem : Memory) : Decidable (moreFragments mem) := inferInstanceAs (Decidable (_ = _))
instance (mem : Memory) : Decidable (fragmentTested mem) := inferInstanceAs (Decidable (_ = _))

/-- Where the code takes the payload to be. -/
def payloadAt (mem : Memory) : Nat := sizeofIphdr + castU8 (((ihl mem : Nat) - 5) * 4)

def doffAt (mem : Memory) (p : Nat) : Nat := (mem (p + 12)).toNat / 16

/-! ## What is asked -/

namespace Call

def payload : Call → Nat
  | .icmp _ p _ | .udp p _ _ | .tcp _ p _ _ => p

/-- Where the data is that the handler forwards; for ICMP the message itself. -/
def data : Call → Nat
  | .icmp _ p _ => p
  | .udp _ d _ | .tcp _ _ d _ => d

def datalen : Call → Nat
  | .icmp _ _ n | .udp _ _ n | .tcp _ _ _ n => n

/-- The transport header, by its own account. -/
def headerLength : Call → Nat
  | .icmp _ _ _ | .udp _ _ _ => 8
  | .tcp h _ _ _ => 4 * h.doff

def dataOffset : Call → Nat
  | .icmp _ _ _ => 0
  | .udp _ _ _ => 8
  | .tcp h _ _ _ => 4 * h.doff

/-- No header is shorter than its fixed part. -/
def minimal : Call → Prop
  | .icmp _ _ _ | .udp _ _ _ => True
  | .tcp h _ _ _ => 5 ≤ h.doff

end Call

/-- What has to hold of a packet that a handler is called for. -/
structure Admitted (mem : Memory) (length : Nat) (k : Call) : Prop where
  header : 20 ≤ 4 * ihl mem ∧ 4 * ihl mem ≤ length
  total : totLen mem = length
  whole : ¬ moreFragments mem
  minimal : k.minimal
  transport : k.payload + k.headerLength ≤ length
  payload : k.payload = 4 * ihl mem
  data : k.data = k.payload + k.dataOffset
  datalen : k.data ≤ length ∧ k.datalen = length - k.data

/-- What has to hold of every buffer. -/
structure Checked (abi : Abi) (c : Config) (l : Loop) (fuel length : Nat)
    (mem : Memory) : Prop where
  admitted : ∀ f k, (handleIp abi c l fuel length).value mem = .pass (f, k) → Admitted mem length k
  bounds : (handleIp abi c l fuel length).Within (· < length) mem
  dropped : ∀ handlers, (∀ r, (handleIp abi c l fuel length).value mem ≠ .pass r) →
    receive handlers ((handleIp abi c l fuel length).value mem) l = (l, [])

/-- What `handle_ip` and `handle_tcp` do not test. -/
structure FieldsInOrder (length : Nat) (mem : Memory) : Prop where
  ihl : 5 ≤ ihl mem
  whole : ¬ moreFragments mem
  doff : mem 9 = ipprotoTcp → 5 ≤ doffAt mem (payloadAt mem) ∧
    payloadAt mem + 4 * doffAt mem (payloadAt mem) ≤ length

/-- The buffer is dropped by a test that `handle_ip` makes, or the payload pointer is within
the packet and, if the packet is not dropped for a short transport header or the session
limit, what is not tested is in order. -/
def InOrder (abi : Abi) (c : Config) (l : Loop) (length : Nat) (mem : Memory) : Prop :=
  length < sizeofIphdr ∨ fragmentTested mem ∨ totLen mem ≠ length ∨ ¬ isUpperLayer (mem 9) ∨
    payloadAt mem ≤ length ∧
      ((∀ f, (readFlow abi length 4 ⟨mem 9, payloadAt mem⟩).value mem = some f →
        overLimit c l f = true) ∨
        FieldsInOrder length mem)

/-! ## Casts -/

theorem castU8_lt (x : Int) : castU8 x < 256 := by
  unfold castU8
  omega

theorem sizeSub_of_le (abi : Abi) {a b : Nat} (h : b ≤ a) (ha : a < 2 ^ 16) :
    sizeSub abi a b = a - b := by
  cases abi <;> simp only [sizeSub, Abi.sizeBits] <;> omega

/-- Behind the end of the packet the difference wraps. -/
theorem sizeSub_of_lt (abi : Abi) {a b : Nat} (h : a < b) (hb : b < 2 ^ 16) :
    2 ^ 16 ≤ sizeSub abi a b := by
  cases abi <;> simp only [sizeSub, Abi.sizeBits] <;> omega

theorem payloadAt_of_ihl {mem : Memory} (h : 5 ≤ ihl mem) : payloadAt mem = 4 * ihl mem := by
  have hlt : ihl mem < 16 := Nat.mod_lt _ (by decide)
  simp only [payloadAt, castU8, sizeofIphdr]
  omega

theorem payloadAt_lt (mem : Memory) : payloadAt mem < 276 := by
  have hcast := castU8_lt (((ihl mem : Nat) - 5) * 4)
  simp only [payloadAt, sizeofIphdr]
  omega

/-! ## Locating the payload -/

theorem fragOff_tested (mem : Memory) :
    ((mem 6).toNat + 256 * (mem 7).toNat) &&& ipMf ≠ 0 ↔ fragmentTested mem := by
  have h6 := (mem 6).toNat_lt
  have hbit := Nat.and_two_pow ((mem 6).toNat + 256 * (mem 7).toNat) 13
  rw [Nat.testBit_eq_decide_div_mod_eq] at hbit
  unfold fragmentTested
  show _ &&& 2 ^ 13 ≠ 0 ↔ _
  rw [hbit]
  have hdiv : ((mem 6).toNat + 256 * (mem 7).toNat) / 2 ^ 13 % 2 =
    (mem 7).toNat / 32 % 2 := by omega
  rw [hdiv]
  by_cases h : (mem 7).toNat / 32 % 2 = 1 <;> simp [h]

theorem locateIp4_value (length : Nat) (mem : Memory) :
    (locateIp4 length).value mem =
      if length < sizeofIphdr ∨ fragmentTested mem ∨
      totLen mem ≠ length then .drop else .pass ⟨mem 9, payloadAt mem⟩ := by
  have htested := fragOff_tested mem
  simp only [locateIp4, checksumFails_eq, ↓value_ite, ↓value_bind, value_pure, value_look, value_u8,
    value_le16, value_be16, htested]
  by_cases hshort : length < sizeofIphdr
  · simp [hshort]
  · by_cases hfragment : fragmentTested mem
    · simp [hshort, hfragment]
    · simp only [hshort, hfragment, false_or, if_false]
      rfl

/-- The header is read only when it is there. -/
theorem locateIp4_within (length : Nat) (mem : Memory) :
    (locateIp4 length).Within (· < length) mem := by
  simp only [locateIp4, checksumFails_eq, ↓within_ite, ↓within_bind, within_pure, within_look,
    within_u8, within_le16, within_be16]
  split
  · trivial
  · rename_i hlen
    simp only [sizeofIphdr] at hlen
    refine ⟨by omega, by omega, ?_⟩
    split
    · trivial
    · refine ⟨by omega, by omega, ?_⟩
      split
      · trivial
      · simp

/-! ## The transport header -/

/-- What `handle_ip` asks for, for each protocol. -/
def headerSize (protocol : UInt8) : Nat :=
  if isIcmp protocol then sizeofIcmp else if protocol =
    ipprotoUdp then sizeofUdphdr else sizeofTcphdr

/-- A protocol with a handler is one of three kinds. -/
theorem isUpperLayer_cases {protocol : UInt8} (h : isUpperLayer protocol) :
    isIcmp protocol ∨ ¬ isIcmp protocol ∧ protocol = ipprotoUdp ∨
      ¬ isIcmp protocol ∧ protocol ≠ ipprotoUdp ∧ protocol = ipprotoTcp := by
  rcases h with rfl | rfl | rfl | rfl <;> decide

theorem isIcmp_upper {protocol : UInt8} (h : isIcmp protocol) : isUpperLayer protocol :=
  .inr (.inr h)

section

variable (abi : Abi) {length : Nat} (mem : Memory) {p : Located}

/-- The ports and flags are read exactly if the difference in `size_t` leaves room. -/
theorem readFlow_within (h20 : 20 ≤ length) (hshort : length < 2 ^ 16) (hp : p.payload < 276) :
    (readFlow abi length 4 p).Within (· < length) mem ↔
    (isUpperLayer p.protocol → p.payload ≤ length) := by
  have haddrs : (readAddrs 4).Within (· < length) mem := by
    simp only [readAddrs, if_true, within_bind, within_pure, and_true]
    exact ⟨lookMany_within fun i _ _ => by omega, lookMany_within fun i _ _ => by omega⟩
  have hle := sizeSub_of_le abi (a := length) (b := p.payload)
  have hlt := sizeSub_of_lt abi (a := length) (b := p.payload)
  simp only [readFlow, ↓within_bind, haddrs, true_and]
  by_cases hupper : isUpperLayer p.protocol
  · simp only [hupper, true_imp_iff]
    rcases isUpperLayer_cases hupper with hk | ⟨hicmp, hk⟩ | ⟨hicmp, hudp, hk⟩
    · simp only [if_pos hk, ↓within_ite, ↓within_bind, within_pure, within_be16,
        and_true, sizeofIcmp]
      split
      · exact iff_of_true trivial (by omega)
      · omega
    · simp only [if_neg hicmp, if_pos hk, ↓within_ite, ↓within_bind, within_pure, within_be16,
        and_true, sizeofUdphdr]
      split
      · exact iff_of_true trivial (by omega)
      · omega
    · simp only [if_neg hicmp, if_neg hudp, if_pos hk, ↓within_ite, ↓within_bind, within_pure,
        within_be16, within_u8, and_true, sizeofTcphdr]
      split
      · exact iff_of_true trivial (by omega)
      · omega
  · have hno : ¬ isIcmp p.protocol ∧ p.protocol ≠ ipprotoUdp ∧ p.protocol ≠ ipprotoTcp :=
      ⟨fun h => hupper (isIcmp_upper h), fun h => hupper (.inr (.inl h)), fun h => hupper (.inl h)⟩
    simp [hno, hupper]

/-- A header that is read is there. -/
theorem room_of_readFlow (hshort : length < 2 ^ 16) (hp : p.payload ≤ length)
    (hupper : isUpperLayer p.protocol) {f : Flow} {version : Nat}
    (h : (readFlow abi length version p).value mem = some f) :
    p.payload + headerSize p.protocol ≤ length := by
  have hle := sizeSub_of_le abi hp hshort
  simp only [readFlow, ↓value_bind, hle] at h
  unfold headerSize
  rcases isUpperLayer_cases hupper with hk | ⟨hicmp, hk⟩ | ⟨hicmp, hudp, hk⟩
  · simp only [if_pos hk, ↓value_ite, value_pure] at h ⊢
    split at h
    · cases h
    · omega
  · simp only [if_neg hicmp, if_pos hk, ↓value_ite, value_pure] at h ⊢
    split at h
    · cases h
    · omega
  · simp only [if_neg hicmp, if_neg hudp, if_pos hk, ↓value_ite, value_pure] at h ⊢
    split at h
    · cases h
    · omega

end

/-! ## The calls -/

section

variable (abi : Abi) {length : Nat} {mem : Memory}

theorem icmpCall_admitted (htotal : totLen mem = length)
    (hroom : payloadAt mem + sizeofIcmp ≤ length) (hshort : length < 2 ^ 16) :
    Admitted mem length ((icmpCall abi length (payloadAt mem)).value mem) ↔
    5 ≤ ihl mem ∧ ¬ moreFragments mem := by
  simp only [sizeofIcmp] at hroom
  constructor
  · intro h
    have hheader := h.header.1
    exact ⟨by omega, h.whole⟩
  · rintro ⟨hihl, hwhole⟩
    have hp := payloadAt_of_ihl hihl
    refine ⟨⟨by omega, by omega⟩, htotal, hwhole, trivial, ?_, hp, rfl, ?_, ?_⟩
    · show payloadAt mem + 8 ≤ length
      omega
    · show payloadAt mem ≤ length
      omega
    · exact sizeSub_of_le abi (by omega) hshort

theorem udpCall_admitted (htotal : totLen mem = length)
    (hroom : payloadAt mem + sizeofUdphdr ≤ length) (hshort : length < 2 ^ 16) :
    Admitted mem length (udpCall abi length (payloadAt mem)) ↔
    5 ≤ ihl mem ∧ ¬ moreFragments mem := by
  constructor
  · intro h
    have hheader := h.header.1
    exact ⟨by omega, h.whole⟩
  · rintro ⟨hihl, hwhole⟩
    have hp := payloadAt_of_ihl hihl
    have hin : 4 * ihl mem ≤ length := by omega
    exact ⟨⟨by omega, hin⟩, htotal, hwhole, trivial, hroom, hp, rfl, hroom,
      sizeSub_of_le abi hroom hshort⟩

/-- The data of a segment whose data offset is in order. -/
theorem tcpoptlen_of_doff {doff : Nat} (h : 5 ≤ doff) (hlt : doff < 16) :
    sizeofTcphdr + castU8 (((doff : Nat) - 5) * 4) = 4 * doff := by
  simp only [castU8, sizeofTcphdr]
  omega

theorem tcpCall_admitted (htotal : totLen mem = length)
    (hroom : payloadAt mem + sizeofTcphdr ≤ length) (hshort : length < 2 ^ 16) :
    Admitted mem length ((tcpCall length (payloadAt mem)).value mem) ↔
      5 ≤ ihl mem ∧ ¬ moreFragments mem ∧ 5 ≤ doffAt mem (payloadAt mem) ∧
        payloadAt mem + 4 * doffAt mem (payloadAt mem) ≤ length := by
  have hdoff := (mem (payloadAt mem + 12)).toNat_lt
  constructor
  · intro h
    have hheader := h.header.1
    exact ⟨by omega, h.whole, h.minimal, h.transport⟩
  · rintro ⟨hihl, hwhole, hmin, hin⟩
    have hp := payloadAt_of_ihl hihl
    have hopt := tcpoptlen_of_doff hmin (by simp only [doffAt]; omega)
    have hdata : ((tcpCall length (payloadAt mem)).value mem).data =
        payloadAt mem + 4 * doffAt mem (payloadAt mem) := by
      rw [← hopt, ← Nat.add_assoc]
      rfl
    have hlen : ((tcpCall length (payloadAt mem)).value mem).datalen =
        castU16 (length - ((tcpCall length (payloadAt mem)).value mem).data : Int) := rfl
    refine ⟨⟨by omega, by omega⟩, htotal, hwhole, hmin, hin, hp, hdata, ?_, ?_⟩
    · rw [hdata]
      exact hin
    · rw [hlen, hdata]
      simp only [castU16]
      omega

end

/-! ## Dispatch -/

/-- The call for a protocol that has a handler. -/
def protocolCall (abi : Abi) (length : Nat) (p : Located) : Read Call :=
  if isIcmp p.protocol then icmpCall abi length p.payload
  else if p.protocol = ipprotoUdp then pure (udpCall abi length p.payload)
  else tcpCall length p.payload

/-- Dropped behind the transport header. -/
def Dropped (r : Read (Verdict (Flow × Call))) (s : Read (Option Flow)) (mem : Memory) : Prop :=
  r.value mem = .drop ∧ ∀ P, r.Within P mem ↔ s.Within P mem

/-- The part of `Checked` that is about the handler and the reads. -/
def Guarded (length : Nat) (mem : Memory) (r : Read (Verdict (Flow × Call))) : Prop :=
  (∀ f k, r.value mem = .pass (f, k) → Admitted mem length k) ∧ r.Within (· < length) mem

theorem Dropped.guarded_iff {r : Read (Verdict (Flow × Call))} {s : Read (Option Flow)}
    {length : Nat} {mem : Memory} (h : Dropped r s mem) :
    Guarded length mem r ↔ s.Within (· < length) mem := by
  unfold Guarded
  rw [h.1, h.2]
  simp

section

variable (abi : Abi) (c : Config) (l : Loop) (length version : Nat) {p : Located}
    {mem : Memory} {f : Flow}

theorem dispatch_none (h : (readFlow abi length version p).value mem = none) :
    Dropped (dispatch abi c l length version p) (readFlow abi length version p) mem := by
  refine ⟨?_, fun P => ?_⟩ <;> simp [dispatch, h]

theorem dispatch_limit (h : (readFlow abi length version p).value mem = some f)
    (hlimit : overLimit c l f = true) :
    Dropped (dispatch abi c l length version p) (readFlow abi length version p) mem := by
  refine ⟨?_, fun P => ?_⟩ <;> simp [dispatch, h, hlimit]

theorem dispatch_other (h : (readFlow abi length version p).value mem = some f)
    (hno : ¬ isUpperLayer p.protocol) :
    Dropped (dispatch abi c l length version p) (readFlow abi length version p) mem := by
  have hicmp : ¬ isIcmp p.protocol := fun h => hno (isIcmp_upper h)
  have hudp : p.protocol ≠ ipprotoUdp := fun h => hno (.inr (.inl h))
  have htcp : p.protocol ≠ ipprotoTcp := fun h => hno (.inl h)
  refine ⟨?_, fun P => ?_⟩ <;> simp [dispatch, h, hicmp, hudp, htcp]

theorem dispatch_call (h : (readFlow abi length version p).value mem = some f)
    (hlimit : overLimit c l f = false) (hupper : isUpperLayer p.protocol) :
    (dispatch abi c l length version p).value mem =
      .pass (f, (protocolCall abi length p).value mem) ∧
      ∀ P, (dispatch abi c l length version p).Within P mem ↔
        (readFlow abi length version p).Within P mem ∧
        (protocolCall abi length p).Within P mem := by
  have hpass : ¬ overLimit c l f = true := by simp [hlimit]
  rcases isUpperLayer_cases hupper with hk | ⟨hicmp, hk⟩ | ⟨hicmp, hudp, hk⟩
  · refine ⟨?_, fun P => ?_⟩ <;> simp [dispatch, protocolCall, h, hpass, if_pos hk]
  · refine ⟨?_, fun P => ?_⟩ <;> simp [dispatch, protocolCall, h, hpass, if_neg hicmp, if_pos hk]
  · refine ⟨?_, fun P => ?_⟩ <;>
      simp [dispatch, protocolCall, h, hpass, if_neg hicmp, if_neg hudp, if_pos hk]

end

section

variable (abi : Abi) (c : Config) (l : Loop) {length : Nat} {mem : Memory}

theorem protocolCall_within {p : Located} (hupper : isUpperLayer p.protocol)
    (hroom : p.payload + headerSize p.protocol ≤ length) :
    (protocolCall abi length p).Within (· < length) mem := by
  unfold protocolCall
  unfold headerSize at hroom
  rcases isUpperLayer_cases hupper with hk | ⟨hicmp, hk⟩ | ⟨hicmp, hudp, hk⟩
  · simp only [if_pos hk, sizeofIcmp] at hroom ⊢
    simp only [icmpCall, within_bind, within_look, within_pure, and_true]
    omega
  · simp only [if_neg hicmp, if_pos hk] at hroom ⊢
    exact within_pure mem _ _
  · simp only [if_neg hicmp, if_neg hudp, sizeofTcphdr] at hroom ⊢
    simp only [tcpCall, readTcphdr, within_bind, within_be16, within_be32, within_u8,
      within_pure, and_true]
    omega

/-- A call is in order when the fields are that `handle_ip` does not look at. -/
theorem protocolCall_admitted (hupper : isUpperLayer (mem 9)) (htotal : totLen mem = length)
    (hroom : payloadAt mem + headerSize (mem 9) ≤ length) (hshort : length < 2 ^ 16) :
    Admitted mem length ((protocolCall abi length ⟨mem 9, payloadAt mem⟩).value mem) ↔
    FieldsInOrder length mem := by
  have hfields : FieldsInOrder length mem ↔ 5 ≤ ihl mem ∧ ¬ moreFragments mem ∧
      (mem 9 = ipprotoTcp → 5 ≤ doffAt mem (payloadAt mem) ∧
        payloadAt mem + 4 * doffAt mem (payloadAt mem) ≤ length) :=
    ⟨fun h => ⟨h.ihl, h.whole, h.doff⟩, fun h => ⟨h.1, h.2.1, h.2.2⟩⟩
  rw [hfields]
  unfold protocolCall
  unfold headerSize at hroom
  rcases isUpperLayer_cases hupper with hk | ⟨hicmp, hk⟩ | ⟨hicmp, hudp, hk⟩
  · have htcp : mem 9 ≠ ipprotoTcp := fun h => absurd (h ▸ hk) (by decide)
    simp only [if_pos hk, htcp, false_imp_iff, and_true] at hroom ⊢
    exact icmpCall_admitted abi htotal hroom hshort
  · have htcp : mem 9 ≠ ipprotoTcp := fun h => absurd (h ▸ hk) (by decide)
    simp only [if_neg hicmp, if_pos hk, htcp, false_imp_iff, and_true, value_pure] at hroom ⊢
    exact udpCall_admitted abi htotal hroom hshort
  · simp only [if_neg hicmp, if_neg hudp] at hroom ⊢
    rw [tcpCall_admitted htotal hroom hshort]
    exact and_congr_right fun _ => and_congr_right fun _ =>
      (true_imp_iff.symm.trans (imp_congr_left (iff_of_true trivial hk)))

/-- What is asked of a buffer behind the IPv4 header. -/
theorem dispatch_guarded (h20 : 20 ≤ length) (htotal : totLen mem = length) :
    Guarded length mem (dispatch abi c l length 4 ⟨mem 9, payloadAt mem⟩) ↔
      ¬ isUpperLayer (mem 9) ∨ payloadAt mem ≤ length ∧
        ((∀ f, (readFlow abi length 4 ⟨mem 9, payloadAt mem⟩).value mem = some f →
          overLimit c l f = true) ∨
          FieldsInOrder length mem) := by
  have h2 := (mem 2).toNat_lt
  have h3 := (mem 3).toNat_lt
  have hshort : length < 2 ^ 16 := by
    rw [← htotal, totLen]
    omega
  have hwithin :=
    readFlow_within abi mem (p := ⟨mem 9, payloadAt mem⟩) h20 hshort (payloadAt_lt mem)
  cases hflow : (readFlow abi length 4 ⟨mem 9, payloadAt mem⟩).value mem with
  | none =>
    rw [(dispatch_none abi c l length 4 hflow).guarded_iff, hwithin]
    simp [imp_iff_not_or]
  | some f =>
    by_cases hupper : isUpperLayer (mem 9)
    · cases hlimit : overLimit c l f with
      | true =>
        rw [(dispatch_limit abi c l length 4 hflow hlimit).guarded_iff, hwithin]
        simp [hupper, hlimit]
      | false =>
        obtain ⟨hvalue, hreads⟩ := dispatch_call abi c l length 4 hflow hlimit hupper
        unfold Guarded
        rw [hvalue, hreads, hwithin]
        by_cases hp : payloadAt mem ≤ length
        · have hroom := room_of_readFlow abi mem hshort hp hupper hflow
          have hcall : (protocolCall abi length ⟨mem 9, payloadAt mem⟩).Within (· < length) mem :=
            protocolCall_within abi hupper hroom
          have hadmitted := protocolCall_admitted abi hupper htotal hroom hshort
          simp [hupper, hp, hlimit, hcall, hadmitted]
        · simp [hupper, hp]
    · rw [(dispatch_other abi c l length 4 hflow hupper).guarded_iff, hwithin]
      simp [hupper]

end

/-! ## Every buffer -/

theorem handleIp_of_version (abi : Abi) (c : Config) (l : Loop) (fuel : Nat) {length : Nat}
    {mem : Memory} (hversion : (mem 0).toNat / 16 = 4) (P : Nat → Prop) :
    (handleIp abi c l fuel length).value mem =
        (match (locateIp4 length).value mem with
          | .loops => pure .loops
          | .drop => pure .drop
          | .pass p => dispatch abi c l length 4 p : Read (Verdict (Flow × Call))).value mem ∧
      ((handleIp abi c l fuel length).Within P mem ↔ P 0 ∧ (locateIp4 length).Within P mem ∧
        (match (locateIp4 length).value mem with
          | .loops => pure .loops
          | .drop => pure .drop
          | .pass p => dispatch abi c l length 4 p :
              Read (Verdict (Flow × Call))).Within P mem) := by
  cases hv : (locateIp4 length).value mem with
  | loops => simp [handleIp, locate, hversion, hv]
  | drop => simp [handleIp, locate, hversion, hv]
  | pass p => simp [handleIp, locate, hversion, hv]

/-- The handler, the pointers, the lengths and the reads are right for an IPv4 buffer if and
only if a test drops it in time or the fields that are not tested are in order. -/
theorem handleIp_checked_iff (abi : Abi) (c : Config) (l : Loop) (fuel length : Nat) (mem : Memory)
    (hlength : 1 ≤ length) (hversion : (mem 0).toNat / 16 = 4) :
    Checked abi c l fuel length mem ↔ InOrder abi c l length mem := by
  have hdropped : ∀ handlers, (∀ r, (handleIp abi c l fuel length).value mem ≠ .pass r) →
      receive handlers ((handleIp abi c l fuel length).value mem) l = (l, []) := by
    intro handlers hno
    cases hv : (handleIp abi c l fuel length).value mem with
    | pass r => exact absurd hv (hno r)
    | drop => rfl
    | loops => rfl
  have hchecked : Checked abi c l fuel length mem ↔
      Guarded length mem (handleIp abi c l fuel length) :=
    ⟨fun h => ⟨h.admitted, h.bounds⟩, fun h => ⟨h.1, h.2, hdropped⟩⟩
  obtain ⟨hvalue, hreads⟩ := handleIp_of_version abi c l fuel hversion (· < length)
  have hlocate := locateIp4_within length mem
  have hfirst : 0 < length := hlength
  rw [hchecked]
  unfold Guarded InOrder
  rw [hvalue, hreads, locateIp4_value]
  by_cases hearly : length < sizeofIphdr ∨ fragmentTested mem ∨ totLen mem ≠ length
  · rw [if_pos hearly]
    refine iff_of_true ⟨by simp, hfirst, hlocate, within_pure _ _ _⟩ ?_
    rcases hearly with h | h | h
    · exact .inl h
    · exact .inr (.inl h)
    · exact .inr (.inr (.inl h))
  · rw [if_neg hearly]
    simp only [not_or, not_lt, ne_eq, Decidable.not_not] at hearly
    obtain ⟨h20, hfragment, htotal⟩ := hearly
    have hguarded := dispatch_guarded abi c l h20 htotal
    unfold Guarded at hguarded
    simp only [hfirst, hlocate, true_and, hguarded]
    simp [Nat.not_lt.mpr h20, hfragment, htotal]

/-! ## Fixed buffers -/

/-- An IPv4 header with the fields that matter here, and what follows it. -/
def packet4 (versionIhl flags offset protocol : UInt8) (rest : Bytes) : Bytes :=
  [versionIhl, 0, 0, UInt8.ofNat (20 + rest.length), 0, 0, flags, offset, 64, protocol, 0, 0,
    10, 1, 10, 1, 93, 184, 216, 34] ++ rest

def plainUdp : Bytes := [15, 160, 0, 53, 0, 8, 0, 0]

def plainTcp (doff : UInt8) : Bytes :=
  [156, 64, 0, 22, 0, 0, 3, 232, 0, 0, 0, 0, doff, 2, 255, 255, 0, 0, 0, 0]

def bufferOf (bytes : Bytes) : Memory := memoryOf bytes fun _ => 0

theorem handleIp_checked_iff_datagram :
    Checked .arm64V8a (plainConfig 10 true) empty 0 28 (bufferOf (packet4 0x45 0 0 17 plainUdp)) :=
  (handleIp_checked_iff _ _ _ _ _ _ (by decide) (by decide)).mpr
    (.inr (.inr (.inr (.inr ⟨by decide, .inr ⟨by decide, by decide, by decide⟩⟩))))

/-- A first fragment; a header of 60 bytes in a packet of 28; a TCP header of 60 bytes in a
packet of 40. -/
theorem fields_unchecked :
    ¬ Checked .arm64V8a (plainConfig 10 true) empty 0 28
      (bufferOf (packet4 0x45 0x20 0 17 plainUdp)) ∧
      ¬ Checked .arm64V8a (plainConfig 10 true) empty 0 28
        (bufferOf (packet4 0x4F 0 0 17 plainUdp)) ∧
        ¬ Checked .arm64V8a (plainConfig 10 true) empty 0 40
          (bufferOf (packet4 0x45 0 0 6 (plainTcp 0xF0))) := by
  refine ⟨fun h => ?_, fun h => ?_, fun h => ?_⟩
  · exact (h.admitted _ _ rfl).whole (by decide)
  · exact absurd (h.bounds 60 (by decide)) (by decide)
  · exact absurd (h.admitted _ _ rfl).transport (by decide)

end PdaNetClient.Ip
