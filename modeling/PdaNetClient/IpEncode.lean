import PdaNetClient.ChecksumPieces
import PdaNetClient.IpAdmission
import PdaNetClient.IpExtension

/-!
# Headers of IP

The headers that `write_icmp`, `write_udp` and `write_tcp` build, with the protocol as a
parameter: what is found in them when they are read back, and when the sum over a
pseudo-header and a message with a checksum field is that of a correct message.
-/
namespace PdaNetClient.Ip

open Reading OnesComplement Table
open Http (Memory memoryOf)
open Tcp (Addr)

set_option autoImplicit false

/-! ## Fields -/

/-- `htons` -/
def be16Bytes (n : Nat) : Bytes := [UInt8.ofNat (n / 256), UInt8.ofNat n]

/-- `htonl` -/
def be32Bytes (x : U32) : Bytes := be16Bytes (x.toNat / 65536) ++ be16Bytes x.toNat

/-- A 16-bit number stored as it is. -/
def le16Bytes (n : Nat) : Bytes := [UInt8.ofNat n, UInt8.ofNat (n / 256)]

/-! ## Headers -/

def ipDefTtl : UInt8 := 64

def ipv4Header (protocol : UInt8) (len : Nat) (saddr daddr : Bytes) (check : Nat) : Bytes :=
  [0x45, 0] ++ be16Bytes len ++ [0, 0, 0, 0, ipDefTtl, protocol] ++ le16Bytes check ++
    saddr ++ daddr

def ipv6Header (protocol : UInt8) (plen : Nat) (saddr daddr : Bytes) : Bytes :=
  [0x60, 0, 0, 0] ++ be16Bytes plen ++ [protocol, ipDefTtl] ++ saddr ++ daddr

def ipHeaderLength (version : Nat) : Nat := if version = 4 then sizeofIphdr else sizeofIp6Hdr

/-- `struct ippseudo` and `struct ip6_hdr_pseudo` as the senders fill them in: for IPv6 the
addresses are exchanged, and the 16-bit length is stored in a 32-bit field as it is. -/
def senderPseudoOf (protocol : UInt8) (version : Nat) (saddr daddr : Bytes) (len : Nat) : Bytes :=
  if version = 4 then saddr ++ daddr ++ [0, protocol] ++ be16Bytes len
  else daddr ++ saddr ++ be16Bytes len ++ [0, 0, 0, 0, 0, protocol]

/-- The pseudo-headers of a receiver, with the addresses in order. -/
def receiverPseudoOf (protocol : UInt8) (version : Nat) (saddr daddr : Bytes) (len : Nat) : Bytes :=
  if version = 4 then saddr ++ daddr ++ [0, protocol] ++ be16Bytes len
  else saddr ++ daddr ++ be32Bytes (BitVec.ofNat 32 len) ++ [0, 0, 0, protocol]

/-- The number of bytes that an IP header promises. -/
def promisedLength (version : Nat) (mem : Memory) : Nat :=
  if version = 4 then totLen mem else sizeofIp6Hdr + (256 * (mem 4).toNat + (mem 5).toNat)

/-! ## A buffer in memory -/

@[simp] theorem memoryOf_cons_zero (x : UInt8) (xs : Bytes) (after : Memory) :
    memoryOf (x :: xs) after 0 = x := by
  simp [memoryOf]

@[simp] theorem memoryOf_cons_succ (x : UInt8) (xs : Bytes) (after : Memory) (i : Nat) :
    memoryOf (x :: xs) after (i + 1) = memoryOf xs after i := by
  simp [memoryOf]

theorem memoryOf_append (xs ys : Bytes) (after : Memory) (i : Nat) :
    memoryOf (xs ++ ys) after (xs.length + i) = memoryOf ys after i := by
  induction xs with
  | nil => simp
  | cons x xs ih => simpa [Nat.add_right_comm] using ih

theorem lookMany_memoryOf (before bytes rest : Bytes) (after : Memory) :
    (lookMany before.length bytes.length).value
      (memoryOf (before ++ (bytes ++ rest)) after) = bytes := by
  induction bytes generalizing before with
  | nil => rfl
  | cons b bytes ih =>
    have hhead := memoryOf_append before (b :: bytes ++ rest) after 0
    have htail := ih (before ++ [b])
    simp only [List.length_append, List.length_singleton, List.append_assoc,
      List.singleton_append] at htail
    simp only [List.length_cons, lookMany, value_bind, value_look, value_pure]
    rw [Nat.add_zero] at hhead
    rw [hhead]
    simpa using htail

/-! ## Fields read back -/

theorem be16_bytes {n : Nat} (h : n < 2 ^ 16) :
    256 * (UInt8.ofNat (n / 256)).toNat + (UInt8.ofNat n).toNat = n := by
  simp only [UInt8.toNat_ofNat']
  omega

theorem be32_bytes (x : U32) :
    BitVec.ofNat 32 (65536 * (256 * (UInt8.ofNat (x.toNat / 65536 / 256)).toNat +
      (UInt8.ofNat (x.toNat / 65536)).toNat) +
      (256 * (UInt8.ofNat (x.toNat / 256)).toNat + (UInt8.ofNat x.toNat).toNat)) = x := by
  have hx := x.isLt
  apply BitVec.eq_of_toNat_eq
  simp only [UInt8.toNat_ofNat', BitVec.toNat_ofNat]
  omega

theorem length_ip4 (a : Addr) : a.ip4.length = 4 := by simp [Addr.ip4, a.length_eq]

theorem length_addrKey (version : Nat) (a : Addr) :
    (addrKey version a).length = if version = 4 then 4 else 16 := by
  by_cases h : version = 4
  · simp [addrKey, h, length_ip4]
  · simp [addrKey, h, a.length_eq]

theorem addrKey_even (version : Nat) (a : Addr) : (addrKey version a).length % 2 = 0 := by
  rw [length_addrKey]
  split <;> rfl

theorem addrKey_addrOf (version : Nat) (a : Addr) :
    addrKey version (addrOf (addrKey version a)) = addrKey version a := by
  have h4 := length_ip4 a
  have h6 := a.length_eq
  by_cases h : version = 4
  · simp only [addrKey, h, if_true]
    show ((a.ip4 ++ List.replicate 16 0).take 16).take 4 = a.ip4
    rw [List.take_take]
    exact List.take_left' h4
  · simp [addrKey, h, addrOf, h6]

/-- The fields of the IPv4 header that are looked at. -/
theorem locate_ipv4Header (protocol : UInt8) {len : Nat} {saddr daddr : Bytes} (segment : Bytes)
    (check fuel : Nat) (after : Memory) (hs : saddr.length = 4) (hd : daddr.length = 4)
    (hlen : len = sizeofIphdr + segment.length) (hfit : len < 2 ^ 16) :
    let mem := memoryOf (ipv4Header protocol len saddr daddr check ++ segment) after
    (mem 0).toNat / 16 = 4 ∧ totLen mem = len ∧ (locate 4 fuel len).value mem =
      .pass ⟨protocol, sizeofIphdr⟩ ∧
      (readAddrs 4).value mem = (addrOf saddr, addrOf daddr) := by
  intro mem
  have hmem : mem = memoryOf (ipv4Header protocol len saddr daddr check ++ segment) after := rfl
  simp only [ipv4Header, be16Bytes, le16Bytes, List.cons_append, List.nil_append,
    List.append_assoc] at hmem
  have h0 : mem 0 = 0x45 := by rw [hmem]; rfl
  have h7 : mem 7 = 0 := by rw [hmem]; simp
  have h9 : mem 9 = protocol := by rw [hmem]; simp
  have htotal : totLen mem = len := by
    have h2 : mem 2 = UInt8.ofNat (len / 256) := by rw [hmem]; simp
    have h3 : mem 3 = UInt8.ofNat len := by rw [hmem]; simp
    rw [totLen, h2, h3, be16_bytes hfit]
  have hpayload : payloadAt mem = sizeofIphdr := by
    simp only [payloadAt, ihl, h0]
    decide
  refine ⟨by rw [h0]; decide, htotal, ?_, ?_⟩
  · show (locateIp4 len).value mem = _
    rw [locateIp4_value, hpayload, h9, if_neg]
    simp only [fragmentTested, h7, htotal, ne_eq, not_true, or_false, not_or]
    exact ⟨by omega, by decide⟩
  · have hsaddr := lookMany_memoryOf
      ([0x45, 0] ++ be16Bytes len ++ [0, 0, 0, 0, ipDefTtl, protocol] ++ le16Bytes check) saddr
      (daddr ++ segment) after
    have hdaddr := lookMany_memoryOf
      ([0x45, 0] ++ be16Bytes len ++ [0, 0, 0, 0, ipDefTtl, protocol] ++ le16Bytes check ++ saddr)
        daddr segment after
    simp only [be16Bytes, le16Bytes, List.cons_append, List.nil_append, List.length_cons,
      List.length_nil, hs, hd, Nat.reduceAdd] at hsaddr hdaddr
    rw [hmem]
    simp only [readAddrs, if_true, value_bind, value_pure, hsaddr, hdaddr]

theorem locate_ipv6Header (protocol : UInt8) (hprotocol : isUpperLayer protocol) {plen : Nat}
    {saddr daddr : Bytes} (segment : Bytes) (fuel : Nat) (after : Memory) (hs : saddr.length = 16)
    (hd : daddr.length = 16) (hfit : plen < 2 ^ 16) :
    let mem := memoryOf (ipv6Header protocol plen saddr daddr ++ segment) after
    (mem 0).toNat / 16 = 6 ∧ 256 * (mem 4).toNat + (mem 5).toNat = plen ∧
      (locate 6 fuel (sizeofIp6Hdr + segment.length)).value mem = .pass ⟨protocol, sizeofIp6Hdr⟩ ∧
      (readAddrs 6).value mem = (addrOf saddr, addrOf daddr) := by
  intro mem
  have hmem : mem = memoryOf (ipv6Header protocol plen saddr daddr ++ segment) after := rfl
  simp only [ipv6Header, be16Bytes, List.cons_append, List.nil_append, List.append_assoc] at hmem
  have h0 : mem 0 = 0x60 := by rw [hmem]; rfl
  have h4 : mem 4 = UInt8.ofNat (plen / 256) := by rw [hmem]; simp
  have h5 : mem 5 = UInt8.ofNat plen := by rw [hmem]; simp
  have h6 : mem 6 = protocol := by rw [hmem]; simp
  have hupper : isUpperLayer (mem 6) := by rw [h6]; exact hprotocol
  refine ⟨by rw [h0]; decide, by rw [h4, h5, be16_bytes hfit], ?_, ?_⟩
  · rw [(locate6_upper fuel (Nat.le_add_right _ _) hupper).1, h6]
  · have hsaddr := lookMany_memoryOf ([0x60, 0, 0, 0] ++ be16Bytes plen ++ [protocol, ipDefTtl])
      saddr (daddr ++ segment) after
    have hdaddr := lookMany_memoryOf
      ([0x60, 0, 0, 0] ++ be16Bytes plen ++ [protocol, ipDefTtl] ++ saddr) daddr segment after
    simp only [be16Bytes, List.cons_append, List.nil_append, List.length_cons,
      List.length_nil, hs, hd, Nat.reduceAdd] at hsaddr hdaddr
    rw [hmem]
    simp only [readAddrs, show ¬ (6 : Nat) = 4 by decide, if_false, value_bind, value_pure,
      hsaddr, hdaddr]

/-! ## Checksums -/

theorem sumLe_le16Bytes {n : Nat} (h : n < 2 ^ 16) (rest : Bytes) :
    sumLe (le16Bytes n ++ rest) = n + sumLe rest := by
  simp only [le16Bytes, List.cons_append, List.nil_append, sumLe, UInt8.toNat_ofNat']
  omega

/-- A checksum field adds its value to the sum. -/
theorem sumLe_check (before rest : Bytes) {check : Nat} (heven : before.length % 2 = 0)
    (h : check < 2 ^ 16) :
    sumLe (before ++ (le16Bytes check ++ rest)) =
      sumLe (before ++ (le16Bytes 0 ++ rest)) + check := by
  rw [sumLe_append _ heven, sumLe_append _ heven, sumLe_le16Bytes h, sumLe_le16Bytes (by decide)]
  omega

theorem not_toNat (x : BitVec 16) : (~~~ x).toNat = 0xFFFF - x.toNat := by
  rw [BitVec.toNat_not]

theorem ipv4Header_verifies (protocol : UInt8) (len : Nat) {saddr daddr : Bytes}
    (hs : saddr.length = 4) (hd : daddr.length = 4) :
    Verifies (ipv4Header protocol len saddr daddr
      (~~~ calcChecksum 0 (ipv4Header protocol len saddr daddr 0)).toNat) := by
  have hlength : (ipv4Header protocol len saddr daddr 0).length = 20 := by
    simp [ipv4Header, be16Bytes, le16Bytes, hs, hd]
  have hsum := calcChecksum_toNat 0 (ipv4Header protocol len saddr daddr 0) (by omega)
  have hcheck := (~~~ calcChecksum 0 (ipv4Header protocol len saddr daddr 0)).isLt
  rw [show (0 : BitVec 16).toNat = 0 from rfl, Nat.zero_add] at hsum
  have hfield :=
    sumLe_check ([0x45, 0] ++ be16Bytes len ++ [0, 0, 0, 0, ipDefTtl, protocol]) (saddr ++ daddr)
    (by simp [be16Bytes]) hcheck
  have hrest : sumLe (ipv4Header protocol len saddr daddr 0) ≠ 0 := by
    have hfirst : (0x45 : UInt8).toNat = 69 := rfl
    simp only [ipv4Header, be16Bytes, List.cons_append, List.nil_append, sumLe]
    omega
  refine complement_verifies ?_ hrest
  rw [← hsum, ← not_toNat]
  simpa only [ipv4Header, List.append_assoc] using hfield

/-- The 32-bit length of a receiver has the same words as the 16-bit one. -/
theorem be32Bytes_small {len : Nat} (hlen : len < 2 ^ 16) :
    be32Bytes (BitVec.ofNat 32 len) = [0, 0] ++ be16Bytes len := by
  have hsmall : len % 4294967296 = len := by omega
  have hhigh : len / 65536 = 0 := by omega
  simp only [be32Bytes, BitVec.toNat_ofNat, Nat.reducePow, hsmall, hhigh]
  rfl

section

variable (protocol : UInt8) (version len : Nat) {saddr daddr : Bytes}

theorem receiverPseudoOf_even (hs : saddr.length % 2 = 0) (hd : daddr.length % 2 = 0) :
    (receiverPseudoOf protocol version saddr daddr len).length % 2 = 0 := by
  unfold receiverPseudoOf
  split <;> simp [be32Bytes, be16Bytes] <;> omega

theorem receiverPseudoOf_sum (hs : saddr.length % 2 = 0) (hd : daddr.length % 2 = 0)
    (hlen : len < 2 ^ 16) :
    sumLe (receiverPseudoOf protocol version saddr daddr len) =
      sumLe saddr + sumLe daddr + 256 * protocol.toNat + sumLe (be16Bytes len) := by
  have hwords : sumLe ([0, 0] ++ be16Bytes len) = sumLe (be16Bytes len) := by simp [sumLe]
  have hshort : sumLe [0, protocol] = 256 * protocol.toNat := by simp [sumLe]
  have hlong : sumLe [0, 0, 0, protocol] = 256 * protocol.toNat := by simp [sumLe]
  unfold receiverPseudoOf
  split
  · rw [sumLe_append _ (by simp; omega), sumLe_append _ (by simp; omega), sumLe_append _ hs, hshort]
  · rw [be32Bytes_small hlen, sumLe_append _ (by simp [be16Bytes]; omega),
      sumLe_append _ (by simp; omega), sumLe_append _ hs, hwords, hlong]
    omega

/-- The exchanged addresses and the short length do not change the sum. -/
theorem senderPseudoOf_sum (hs : saddr.length % 2 = 0) (hd : daddr.length % 2 = 0) :
    sumLe (senderPseudoOf protocol version saddr daddr len) =
      sumLe saddr + sumLe daddr + 256 * protocol.toNat + sumLe (be16Bytes len) := by
  have hshort : sumLe [0, protocol] = 256 * protocol.toNat := by simp [sumLe]
  have hlong : sumLe [0, 0, 0, 0, 0, protocol] = 256 * protocol.toNat := by simp [sumLe]
  unfold senderPseudoOf
  split
  · rw [sumLe_append _ (by simp; omega), sumLe_append _ (by simp; omega), sumLe_append _ hs, hshort]
  · rw [sumLe_append _ (by simp [be16Bytes]; omega), sumLe_append _ (by simp; omega),
      sumLe_append _ hd, hlong]
    omega

/-- The same sum in network order. -/
theorem senderPseudoOf_sumBe (hs : saddr.length % 2 = 0) (hd : daddr.length % 2 = 0) :
    sumBe (senderPseudoOf protocol version saddr daddr len) =
      sumBe saddr + sumBe daddr + protocol.toNat + sumBe (be16Bytes len) := by
  have hshort : sumBe [0, protocol] = protocol.toNat := by simp [sumBe]
  have hlong : sumBe [0, 0, 0, 0, 0, protocol] = protocol.toNat := by simp [sumBe]
  unfold senderPseudoOf
  split
  · rw [sumBe_append _ (by simp; omega), sumBe_append _ (by simp; omega), sumBe_append _ hs, hshort]
  · rw [sumBe_append _ (by simp [be16Bytes]; omega), sumBe_append _ (by simp; omega),
      sumBe_append _ hd, hlong]
    omega

theorem sumBe_be16Bytes {n : Nat} (h : n < 2 ^ 16) : sumBe (be16Bytes n) = n := be16_bytes h

end

/-- A message whose checksum was taken with `start` in front of it verifies behind a pseudo-header
with the same sum. -/
theorem field_verifies_iff {pseudo before rest : Bytes} (start : Nat) {check : Nat}
    (hpseudo : pseudo.length % 2 = 0) (hbefore : before.length % 2 = 0)
    (hzero : sumLe pseudo = 0 → start = 0)
    (hcheck : check = 0xFFFF - carry (start + sumLe (before ++ (le16Bytes 0 ++ rest)))) :
    Verifies (pseudo ++ (before ++ (le16Bytes check ++ rest))) ↔
    sumLe pseudo % 65535 = start % 65535 := by
  have hsum := sumLe_check before rest hbefore (show check < 2 ^ 16 by omega)
  have hlt := carry_lt (start + sumLe (before ++ (le16Bytes 0 ++ rest)))
  have hmod := carry_modEq (start + sumLe (before ++ (le16Bytes 0 ++ rest)))
  have hnone := carry_eq_zero (n := start + sumLe (before ++ (le16Bytes 0 ++ rest)))
  unfold Nat.ModEq at hmod
  rw [verifies_iff, sumLe_append _ hpseudo, hsum]
  omega

end PdaNetClient.Ip
