import PdaNetClient.IcmpEcho

/-!
# Checksums of rewritten ICMP messages

`handle_icmp` and `check_icmp_socket` change the identifier and take the checksum anew, for
version 6 with a pseudo-header of their own: the first one copies the length and the protocol
from the IP header, which is the message's only without extension headers; the second one
takes the length of an IP header off that of the message.
-/
namespace PdaNetClient.Icmp

open Datagram Table Reading OnesComplement
open Ip (addrOf be16Bytes le16Bytes be32Bytes ipv4Header ipv6Header ipHeaderLength promisedLength
    receiverPseudoOf ipprotoIcmp
  ipprotoIcmpv6 sizeSub sizeofIcmp sizeofIphdr sizeofIp6Hdr length_addrKey addrKey_even length_ip4)
open Http (Memory memoryOf)
open Tcp (Addr)

set_option autoImplicit false

/-! ## The message that is sent -/

/-- `~icmp->icmp_id` -/
def invertedId (message : Bytes) : Nat :=
  0xFFFF - ((message.getD 4 0).toNat + 256 * (message.getD 5 0).toNat)

/-- "Modify ID" -/
def modifyId (version : Nat) (pseudo message : Bytes) : Bytes :=
  let csum := if version = 6 then calcChecksum 0 pseudo else 0
  let check := ~~~ calcChecksum csum (storeHeader 0 (invertedId message) message)
  storeHeader check.toNat (invertedId message) message

/-- The pseudo-header of `handle_icmp`, with the addresses exchanged and the length and the protocol
as they stand in the IP header. -/
def sentPseudo (mem : Memory) : Bytes :=
  (lookMany 24 16).value mem ++ (lookMany 8 16).value mem ++ [mem 4, mem 5, 0, 0] ++
    [0, 0, 0, mem 6]

/-- What `handle_icmp` hands to `sendto`. -/
def sentMessage (mem : Memory) (payload icmplen : Nat) : Bytes :=
  modifyId ((mem 0).toNat / 16) (sentPseudo mem) ((lookMany payload icmplen).value mem)

/-! ## What is asked of a message -/

/-- The pseudo-header of RFC 8200; there is none for version 4. -/
def pseudoFor (version : Nat) (saddr daddr message : Bytes) : Bytes :=
  if version = 6 then receiverPseudoOf ipprotoIcmpv6 version saddr daddr message.length else []

/-- The message has a checksum, and the sum is right. -/
def Checks (version : Nat) (saddr daddr message : Bytes) : Prop :=
  4 ≤ message.length ∧ Verifies (pseudoFor version saddr daddr message ++ message)

/-- What is sent is the message of the packet, and checks between the addresses of the packet. -/
structure SentRight (mem : Memory) (length payload icmplen : Nat) : Prop where
  whole : payload + icmplen = length
  checks : Checks ((mem 0).toNat / 16) ((lookMany 8 16).value mem) ((lookMany 24 16).value mem)
    (sentMessage mem payload icmplen)

/-- The message behind the IP header checks between the addresses of that header, and its length is
right. -/
structure ReplyRight (version : Nat) (packet : Bytes) (after : Memory) : Prop where
  checks : Checks version (sourceOf version packet) (destOf version packet)
    (packet.drop (ipHeaderLength version))
  length : promisedLength version (memoryOf packet after) = packet.length

/-- `ICMP4_MAXMSG` and `ICMP6_MAXMSG` -/
def icmpMaxmsg (version : Nat) : Nat := if version = 4 then 65535 - 20 - 8 else 65535 - 40 - 8

/-! ## The checksum field -/

theorem length_storeHeader (check id : Nat) (data : Bytes) :
    (storeHeader check id data).length = data.length := by
  simp [storeHeader, le16Bytes]
  omega

/-- A message around its checksum field. -/
theorem storeHeader_split (check id : Nat) {data : Bytes} (h : 4 ≤ data.length) :
    storeHeader check id data = data.take 2 ++
      (le16Bytes check ++ (le16Bytes id ++ data.drop 6).take (data.length - 4)) := by
  have htake : (data.take 2 ++ le16Bytes check).length = 4 := by
    simp [le16Bytes]
    omega
  unfold storeHeader
  rw [List.append_assoc, List.take_append, htake, List.take_of_length_le (by omega),
    List.append_assoc]

/-- A rewritten message checks where its checksum was started with the sum of the pseudo-header. -/
theorem rewritten_verifies (pseudo data : Bytes) (csum : BitVec 16) (id : Nat)
    (hpseudo : pseudo.length % 2 = 0) (hzero : sumLe pseudo = 0 → csum = 0)
    (hdata : 4 ≤ data.length) (hmax : data.length ≤ 65535) :
    Verifies (pseudo ++ storeHeader (~~~ calcChecksum csum (storeHeader 0 id data)).toNat id data) ↔
      sumLe pseudo % 65535 = csum.toNat % 65535 := by
  have hsum := calcChecksum_toNat csum (storeHeader 0 id data) (by rw [length_storeHeader]; omega)
  rw [storeHeader_split _ _ hdata, Ip.not_toNat, hsum, storeHeader_split _ _ hdata]
  apply Ip.field_verifies_iff _ hpseudo
  · simp
    omega
  · intro hnone
    rw [hzero hnone]
    rfl
  · rfl

/-! ## The message to the server -/

/-- `ip6_plen` -/
def plenOf (mem : Memory) : Nat := 256 * (mem 4).toNat + (mem 5).toNat

theorem length_look (k n : Nat) (mem : Memory) : ((lookMany k n).value mem).length = n := by
  simp [lookMany_value]

theorem sumLe_be16 {n : Nat} (h : n < 2 ^ 16) :
    sumLe (be16Bytes n) = n / 256 + 256 * (n % 256) := by
  simp only [be16Bytes, sumLe, UInt8.toNat_ofNat']
  omega

theorem length_sentPseudo (mem : Memory) : (sentPseudo mem).length = 40 := by
  simp [sentPseudo, length_look]

theorem sentPseudo_sum (mem : Memory) : sumLe (sentPseudo mem) = sumLe ((lookMany 8 16).value mem) +
    sumLe ((lookMany 24 16).value mem) + ((mem 4).toNat + 256 * (mem 5).toNat) +
    256 * (mem 6).toNat := by
  have hlen : sumLe [mem 4, mem 5, 0, 0] = (mem 4).toNat + 256 * (mem 5).toNat := by simp [sumLe]
  have hnxt : sumLe [0, 0, 0, mem 6] = 256 * (mem 6).toNat := by simp [sumLe]
  unfold sentPseudo
  rw [sumLe_append _ (by simp [length_look]), sumLe_append _ (by simp [length_look]),
    sumLe_append _ (by simp [length_look]), hlen, hnxt]
  omega

/-- The sum of the receiver's pseudo-header for version 6. -/
theorem pseudo6_sum {saddr daddr : Bytes} (message : Bytes) (hs : saddr.length % 2 = 0)
    (hd : daddr.length % 2 = 0) (hmax : message.length ≤ 65535) :
    (pseudoFor 6 saddr daddr message).length % 2 = 0 ∧
      sumLe (pseudoFor 6 saddr daddr message) = sumLe saddr + sumLe daddr + 256 * 58 +
        (message.length / 256 + 256 * (message.length % 256)) := by
  have hproto : (ipprotoIcmpv6 : UInt8).toNat = 58 := rfl
  rw [pseudoFor, if_pos rfl]
  refine ⟨Ip.receiverPseudoOf_even _ _ _ hs hd, ?_⟩
  rw [Ip.receiverPseudoOf_sum _ _ _ hs hd (by omega), sumLe_be16 (by omega), hproto]

/-- The sums in network order. -/
theorem plen_agrees (a b c n t : Nat) :
    (t + 256 * 58 + (n / 256 + 256 * (n % 256))) % 65535 = (t + (a + 256 * b) + 256 * c) % 65535 ↔
      (256 * a + b + c) % 65535 = (n + 58) % 65535 := by
  omega

theorem sent_checks_iff {mem : Memory} (payload : Nat) {icmplen : Nat}
    (hversion : (mem 0).toNat / 16 = 4 ∨ (mem 0).toNat / 16 = 6) (hmin : 4 ≤ icmplen)
    (hmax : icmplen ≤ 65535) :
    Checks ((mem 0).toNat / 16) ((lookMany 8 16).value mem) ((lookMany 24 16).value mem)
    (sentMessage mem payload icmplen) ↔
      (mem 0).toNat / 16 = 4 ∨ (plenOf mem + (mem 6).toNat) % 65535 = (icmplen + 58) % 65535 := by
  have hmessage := length_look payload icmplen mem
  have hlength : (sentMessage mem payload icmplen).length = icmplen := by
    rw [sentMessage, modifyId, length_storeHeader, hmessage]
  unfold Checks
  rw [hlength, and_iff_right hmin]
  rcases hversion with hv | hv
  · rw [sentMessage, modifyId, pseudoFor, hv]
    simp only [show ¬ (4 : Nat) = 6 by decide, if_false, true_or, iff_true]
    exact (rewritten_verifies [] _ 0 _ rfl (fun _ => rfl) (by omega) (by omega)).mpr rfl
  · have hsaddr : ((lookMany 8 16).value mem).length % 2 = 0 := by simp [length_look]
    have hdaddr : ((lookMany 24 16).value mem).length % 2 = 0 := by simp [length_look]
    obtain ⟨heven, hsum⟩ := pseudo6_sum (sentMessage mem payload icmplen) hsaddr hdaddr (by omega)
    have hsent := calcChecksum_toNat 0 (sentPseudo mem) (by rw [length_sentPseudo]; decide)
    have hmod := carry_modEq (sumLe (sentPseudo mem))
    have hpseudo := sentPseudo_sum mem
    rw [show (0 : BitVec 16).toNat = 0 from rfl, Nat.zero_add] at hsent
    have hverifies :=
      rewritten_verifies _ ((lookMany payload icmplen).value mem) (calcChecksum 0 (sentPseudo mem))
      (invertedId ((lookMany payload icmplen).value mem)) heven (fun hnone => by omega)
        (by omega) (by omega)
    have hplen := plen_agrees (mem 4).toNat (mem 5).toNat (mem 6).toNat icmplen
      (sumLe ((lookMany 8 16).value mem) + sumLe ((lookMany 24 16).value mem))
    rw [hsum, hsent, hmod, hpseudo, hlength, hplen] at hverifies
    rw [hv, show ((6 : Nat) = 4) = False from by simp, false_or, plenOf, ← hverifies, sentMessage,
      modifyId, hv]
    rfl

/-- What `handle_ip` has made sure of when it calls `handle_icmp`. -/
theorem handleIp_icmp {abi : Abi} {c : Config} {l : Loop} {fuel length payload icmplen : Nat}
    {mem : Memory} {f : Ip.Flow} {type : UInt8}
    (h : (Ip.handleIp abi c l fuel length).value mem = .pass (f, .icmp type payload icmplen)) :
    ((mem 0).toNat / 16 = 4 ∨ (mem 0).toNat / 16 = 6) ∧ icmplen = sizeSub abi length payload ∧
    sizeofIcmp ≤ icmplen := by
  have hversion : (mem 0).toNat / 16 = 4 ∨ (mem 0).toNat / 16 = 6 := by
    by_contra hno
    rw [not_or] at hno
    simp [Ip.handleIp, Ip.locate, hno.1, hno.2] at h
  refine ⟨hversion, ?_⟩
  unfold Ip.handleIp at h
  simp only [value_bind, Ip.value_u8] at h
  cases hlocate : (Ip.locate ((mem 0).toNat / 16) fuel length).value mem with
  | drop => simp [hlocate] at h
  | loops => simp [hlocate] at h
  | pass p =>
    simp only [hlocate] at h
    cases hflow : (Ip.readFlow abi length ((mem 0).toNat / 16) p).value mem with
    | none => simp [(Ip.dispatch_none abi c l length _ hflow).1] at h
    | some g =>
      cases hlimit : Ip.overLimit c l g with
      | true => simp [(Ip.dispatch_limit abi c l length _ hflow hlimit).1] at h
      | false =>
        by_cases hupper : Ip.isUpperLayer p.protocol
        · rw [(Ip.dispatch_call abi c l length _ hflow hlimit hupper).1] at h
          by_cases hicmp : Ip.isIcmp p.protocol
          · simp [Ip.protocolCall, hicmp, Ip.icmpCall] at h
            obtain ⟨-, -, hpayload, hlen⟩ := h
            subst hpayload
            refine ⟨hlen.symm, ?_⟩
            by_contra hshort
            rw [← hlen] at hshort
            simp [Ip.readFlow, hicmp, Nat.lt_of_not_le hshort] at hflow
          · simp [Ip.protocolCall, hicmp, Ip.udpCall, Ip.tcpCall] at h
            split at h <;> simp at h
        · simp [(Ip.dispatch_other abi c l length _ hflow hupper).1] at h

/-- The message that is sent is right between the addresses of the packet if it starts inside of the
packet and the length and the protocol of the IP header are its own. -/
theorem sentRight_iff {abi : Abi} {c : Config} {l : Loop} {fuel length payload icmplen : Nat}
    {mem : Memory} {f : Ip.Flow} {type : UInt8}
    (h : (Ip.handleIp abi c l fuel length).value mem = .pass (f, .icmp type payload icmplen))
    (hlength : length ≤ 65535) :
    SentRight mem length payload icmplen ↔ payload ≤ length ∧
      ((mem 0).toNat / 16 = 4 ∨ (plenOf mem + (mem 6).toNat) % 65535 =
        (length - payload + 58) % 65535) := by
  obtain ⟨hversion, hlen, hmin⟩ := handleIp_icmp h
  have hmin : 4 ≤ icmplen := le_trans (by decide) hmin
  by_cases hinside : payload ≤ length
  · have hrest : icmplen = length - payload := hlen.trans (Ip.sizeSub_of_le abi hinside (by omega))
    have hchecks := sent_checks_iff payload hversion hmin (by omega)
    rw [hrest] at hchecks
    rw [and_iff_right hinside, ← hchecks, hrest]
    exact ⟨fun hright => hright.checks, fun hchecks => ⟨by omega, hchecks⟩⟩
  · refine iff_of_false (fun hright => ?_) (fun hright => hinside hright.1)
    have hwhole := hright.whole
    omega

/-! ## The reply -/

section

variable {s : IcmpSession} {data : Bytes}

theorem length_restoreId (s : IcmpSession) (data : Bytes) :
    (restoreId s data).length = data.length := by
  rw [restoreId, length_storeHeader]

theorem writeIcmp_message (s : IcmpSession) (message : Bytes) :
    (writeIcmp s message).drop (ipHeaderLength s.version) = message := by
  unfold writeIcmp ipHeaderLength
  split
  · exact List.drop_left' (by simp [ipv4Header, be16Bytes, le16Bytes, length_ip4, sizeofIphdr])
  · exact List.drop_left' (by simp [ipv6Header, be16Bytes, Addr.length_eq, sizeofIp6Hdr])

/-- The length of an IP packet is that of its buffer. -/
theorem writeIcmp_promised (data : Bytes) (after : Memory)
    (hversion : s.version = 4 ∨ s.version = 6) (hdata : data.length ≤ icmpMaxmsg s.version) :
    promisedLength s.version (memoryOf (writeIcmp s data) after) = (writeIcmp s data).length := by
  rcases hversion with hv | hv
  · simp only [hv, icmpMaxmsg, if_true] at hdata
    have hlocated := Ip.locate_ipv4Header Ip.ipprotoIcmp data
      (~~~ calcChecksum 0 (ipv4Header ipprotoIcmp (sizeofIphdr + data.length) s.daddr.ip4
        s.saddr.ip4 0)).toNat 0 after (length_ip4 s.daddr)
      (length_ip4 s.saddr) rfl (by rw [sizeofIphdr]; omega)
    simp only [promisedLength, writeIcmp, hv, if_true]
    rw [List.length_append, show (ipv4Header ipprotoIcmp _ _ _ _).length = sizeofIphdr by
      simp [ipv4Header, be16Bytes, le16Bytes, length_ip4, sizeofIphdr]]
    exact hlocated.2.1
  · have hnot : ¬ (6 : Nat) = 4 := by decide
    simp only [hv, icmpMaxmsg, hnot, if_false] at hdata
    have hlocated :=
      Ip.locate_ipv6Header ipprotoIcmpv6 (.inr (.inr (.inr rfl))) data 0 after s.daddr.length_eq
      s.saddr.length_eq (show data.length < 2 ^ 16 by omega)
    have hheader : (ipv6Header ipprotoIcmpv6 data.length s.daddr.ip6 s.saddr.ip6).length =
        sizeofIp6Hdr := by
      simp [ipv6Header, be16Bytes, Addr.length_eq, sizeofIp6Hdr]
    simp only [promisedLength, writeIcmp, hv, hnot, if_false]
    rw [List.length_append, hheader]
    exact congrArg (sizeofIp6Hdr + ·) hlocated.2.1

theorem replyPseudo_sum (s : IcmpSession) {n : Nat} (hn : n ≤ 65535) :
    (replyPseudo s n).length = 40 ∧
    ∃ len, sumLe (replyPseudo s n) = sumLe s.daddr.ip6 + sumLe s.saddr.ip6 + len + 256 * 58 ∧
      (len = n - 40 ∧ 40 ≤ n ∨ len = n + 131031 ∧ n < 40) := by
  have hproto : sumLe [0, 0, 0, ipprotoIcmpv6] = 256 * 58 := rfl
  have hs := s.saddr.length_eq
  have hd := s.daddr.length_eq
  have hword (m : Nat) : sumLe (le16Bytes m) = m % 65536 := by
    simp only [le16Bytes, sumLe, UInt8.toNat_ofNat']
    omega
  refine ⟨by simp [replyPseudo, le16Bytes, hs, hd], ?_⟩
  obtain ⟨len, hlen⟩ : ∃ len, (((n : Int) - sizeofIp6Hdr) % 2 ^ 32).toNat = len := ⟨_, rfl⟩
  refine ⟨len % 65536 + len / 65536 % 65536, ?_, ?_⟩
  · simp only [replyPseudo, hlen]
    rw [sumLe_append _ (by simp [le16Bytes, hs, hd]), sumLe_append _ (by simp [le16Bytes, hs, hd]),
      sumLe_append _ (by simp [hs, hd]), sumLe_append _ (by simp [hd]), hword, hword, hproto]
    omega
  · simp only [sizeofIp6Hdr] at hlen
    omega

/-- No length makes up for the header that is taken off. -/
theorem short_differs {n len t : Nat} (hn : n ≤ 65535)
    (hlen : len = n - 40 ∧ 40 ≤ n ∨ len = n + 131031 ∧ n < 40) :
    (t + 256 * 58 + (n / 256 + 256 * (n % 256))) % 65535 ≠ (t + len + 256 * 58) % 65535 := by
  omega

theorem reply_checks_iff (hversion : s.version = 4 ∨ s.version = 6)
    (hdata : data.length ≤ icmpMaxmsg s.version) :
    Checks s.version (addrKey s.version s.daddr) (addrKey s.version s.saddr) (restoreId s data) ↔
      4 ≤ data.length ∧ s.version = 4 := by
  have hmax : data.length ≤ 65535 := by
    simp only [icmpMaxmsg] at hdata
    split at hdata <;> omega
  have hlength := length_restoreId s data
  unfold Checks
  rw [hlength]
  by_cases hmin : 4 ≤ data.length
  · rw [and_iff_right hmin, and_iff_right hmin]
    rcases hversion with hv | hv
    · rw [restoreId, pseudoFor, hv]
      simp only [show ¬ (4 : Nat) = 6 by decide, if_false, iff_true]
      exact (rewritten_verifies [] _ 0 _ rfl (fun _ => rfl) hmin hmax).mpr rfl
    · obtain ⟨heven, hsum⟩ :=
        pseudo6_sum (restoreId s data) (addrKey_even 6 s.daddr) (addrKey_even 6 s.saddr) (by omega)
      obtain ⟨hforty, len, hpseudo, hlen⟩ := replyPseudo_sum s hmax
      have hreply := calcChecksum_toNat 0 (replyPseudo s data.length) (by omega)
      have hmod := carry_modEq (sumLe (replyPseudo s data.length))
      rw [show (0 : BitVec 16).toNat = 0 from rfl, Nat.zero_add] at hreply
      have hverifies :=
        rewritten_verifies _ data (calcChecksum 0 (replyPseudo s data.length)) s.id.toNat heven
        (fun hnone => by omega) hmin hmax
      have hrestore : storeHeader
          (~~~ calcChecksum (calcChecksum 0 (replyPseudo s data.length))
            (storeHeader 0 s.id.toNat data)).toNat
          s.id.toNat data = restoreId s data := by
        simp only [restoreId, hv, if_true]
      rw [hsum, hreply, hmod, hpseudo, hlength, hrestore] at hverifies
      have hdiffers := short_differs (t := sumLe s.daddr.ip6 + sumLe s.saddr.ip6) hmax hlen
      rw [hv]
      apply iff_of_false _ (by decide)
      exact fun hright => hdiffers (hverifies.mp hright)
  · exact iff_of_false (fun hright => hmin hright.1) fun hright => hmin hright.1

theorem replyRight_iff (after : Memory) (hversion : s.version = 4 ∨ s.version = 6)
    (hdata : data.length ≤ icmpMaxmsg s.version) :
    ReplyRight s.version (writeIcmp s (restoreId s data)) after ↔
    4 ≤ data.length ∧ s.version = 4 := by
  obtain ⟨hsource, hdest⟩ := writeIcmp_addrs (s := s) (restoreId s data)
  have hchecks := reply_checks_iff hversion hdata
  have hpromised :=
    writeIcmp_promised (restoreId s data) after hversion (by rw [length_restoreId]; exact hdata)
  have hparts : Checks s.version (sourceOf s.version (writeIcmp s (restoreId s data)))
      (destOf s.version (writeIcmp s (restoreId s data)))
        ((writeIcmp s (restoreId s data)).drop (ipHeaderLength s.version)) ↔
      4 ≤ data.length ∧ s.version = 4 := by
    rw [hsource, hdest, writeIcmp_message, hchecks]
  exact ⟨fun hright => hparts.mp hright.checks, fun hright => ⟨hparts.mpr hright, hpromised⟩⟩

end

/-- The message to the server is right if and only if it lies in the packet and has version 4 or the
length and the protocol of the IP header; the reply is right if and only if it has version 4 and
room for a checksum. -/
theorem icmp_checksums (abi : Abi) (c : Config) (l : Loop) (fuel length : Nat) (mem : Memory)
    (f : Ip.Flow) (type : UInt8) (payload icmplen : Nat) (e : SocketEnv) (s : IcmpSession)
    (data packet : Bytes) (after : Memory)
    (hcall : (Ip.handleIp abi c l fuel length).value mem = .pass (f, .icmp type payload icmplen))
    (hlength : length ≤ 65535) (hversion : s.version = 4 ∨ s.version = 6)
    (hrecv : e.recv = .ok data) (hdata : data.length ≤ icmpMaxmsg s.version)
    (hpacket : replyPacket e s = some packet) :
    (SentRight mem length payload icmplen ↔ payload ≤ length ∧
        ((mem 0).toNat / 16 = 4 ∨ (plenOf mem + (mem 6).toNat) % 65535 =
          (length - payload + 58) % 65535)) ∧
      (ReplyRight s.version packet after ↔ 4 ≤ data.length ∧ s.version = 4) := by
  rw [replyPacket_ok hrecv hpacket]
  exact ⟨sentRight_iff hcall hlength, replyRight_iff after hversion hdata⟩

/-- An echo request of 28 bytes in an IPv4 packet. -/
def pingBuffer : Memory :=
  Ip.bufferOf (Ip.packet4 0x45 0 0 Ip.ipprotoIcmp
    ([8, 0, 0, 0, 0, 1, 0, 1] ++ List.replicate 20 0x61))

theorem icmp_checksums_ping : SentRight pingBuffer 48 20 28 ∧
    ReplyRight 4 (writeIcmp firstSession (restoreId firstSession [0, 0, 0, 0, 0x39, 0x30, 0, 7]))
      fun _ => 0 := by
  have hcall : (Ip.handleIp .arm64V8a (plainConfig 10 true) empty 0 48).value pingBuffer =
      .pass (⟨4, Ip.ipprotoIcmp, addrOf ((lookMany 12 4).value pingBuffer),
        addrOf ((lookMany 16 4).value pingBuffer), 1, 1, false⟩, .icmp 8 20 28) := by
    decide +kernel
  obtain ⟨hsent, hreply⟩ :=
    icmp_checksums .arm64V8a (plainConfig 10 true) empty 0 48 pingBuffer _ 8 20 28
    (datagramEvent [0, 0, 0, 0, 0x39, 0x30, 0, 7]) firstSession [0, 0, 0, 0, 0x39, 0x30, 0, 7]
    (writeIcmp firstSession (restoreId firstSession [0, 0, 0, 0, 0x39, 0x30, 0, 7])) (fun _ => 0)
      hcall (by decide) (.inl rfl) rfl
    (by decide) (replyPacket_datagram firstSession (by decide))
  exact ⟨hsent.mpr ⟨by decide, .inl (by decide +kernel)⟩, hreply.mpr ⟨by decide, rfl⟩⟩

/-- A session of version 6. -/
def session6 : IcmpSession := { firstSession with version := 6 }

/-- A packet of 28 bytes with a header length of 60, and what lies behind it in the buffer. -/
def longHeader : Memory :=
  Ip.bufferOf (Ip.packet4 0x4F 0 0 ipprotoIcmp (List.replicate 8 0) ++
    (List.replicate 32 0 ++ [8, 0, 0, 0, 0, 1, 0, 1]))

/-- The message to the server is not in the packet, and an echo reply of a version 6 session does
not check. -/
theorem checksums_wrong :
    (∃ f icmplen, (Ip.handleIp .arm64V8a (plainConfig 10 true) empty 0 28).value longHeader =
      .pass (f, .icmp 8 60 icmplen) ∧
      ¬ SentRight longHeader 28 60 icmplen) ∧
    replyPacket (datagramEvent [129, 0, 0, 0, 0x39, 0x30, 0, 7]) session6 =
      some (writeIcmp session6 (restoreId session6 [129, 0, 0, 0, 0x39, 0x30, 0, 7])) ∧
    ¬ ReplyRight 6 (writeIcmp session6 (restoreId session6 [129, 0, 0, 0, 0x39, 0x30, 0, 7]))
      fun _ => 0 := by
  refine ⟨⟨⟨4, ipprotoIcmp, addrOf ((lookMany 12 4).value longHeader),
    addrOf ((lookMany 16 4).value longHeader), 1, 1, false⟩, 2 ^ 64 - 32, by decide +kernel,
    fun hright => ?_⟩, replyPacket_datagram session6 (by decide), fun hright => ?_⟩
  · exact absurd hright.whole (by decide)
  · have hshort : [(129 : UInt8), 0, 0, 0, 0x39, 0x30, 0, 7].length ≤
      icmpMaxmsg session6.version := by decide
    obtain ⟨-, hfour⟩ := (replyRight_iff (fun _ => 0) (.inr rfl) hshort).mp hright
    exact absurd hfour (by decide)

end PdaNetClient.Icmp
