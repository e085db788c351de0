import PdaNetClient.IpEncode

/-!
# The bytes of `write_tcp`

The packet that `write_tcp` hands to tun, byte by byte, and what comes out when it is read
back the way `handle_ip` and `handle_tcp` read a packet.
-/
namespace PdaNetClient.Ip

open Reading OnesComplement Table
open Http (Memory memoryOf)
open Tcp (Addr TunPacket writeTcp)

set_option autoImplicit false

/-! ## Headers -/

/-- The options of a SYN: the MSS is stored without `htons`. -/
def optionBytes (p : TunPacket) : Bytes :=
  match p.options with
  | none => []
  | some (mss, ws) => [2, 4] ++ le16Bytes mss ++ [3, 3, UInt8.ofNat ws, 0]

def doffOf (p : TunPacket) : Nat := (sizeofTcphdr + (optionBytes p).length) / 4

def flagsOf (p : TunPacket) : Nat :=
  p.fin.toNat + 2 * p.syn.toNat + 4 * p.rst.toNat + 16 * p.ack.toNat

def tcpHeader (p : TunPacket) (check : Nat) : Bytes :=
  be16Bytes p.source ++ be16Bytes p.dest ++ be32Bytes p.seq ++ be32Bytes p.ackSeq ++
    [UInt8.ofNat (16 * doffOf p), UInt8.ofNat (flagsOf p)] ++ be16Bytes p.window.toNat ++
    le16Bytes check ++ [0, 0]

/-- `sizeof(struct tcphdr) + optlen + datalen` -/
def tcpLength (p : TunPacket) : Nat := sizeofTcphdr + (optionBytes p).length + p.data.length

/-- The pseudo-header that the checksum starts with; for IPv6 the addresses are exchanged. -/
def pseudoOf (p : TunPacket) : Bytes :=
  senderPseudoOf ipprotoTcp p.version (addrKey p.version p.saddr) (addrKey p.version p.daddr)
    (tcpLength p)

def tcpChecksum (p : TunPacket) : BitVec 16 :=
  calcChecksum (calcChecksum (calcChecksum (calcChecksum 0 (pseudoOf p)) (tcpHeader p 0))
    (optionBytes p)) p.data

def ipHeaderOf (p : TunPacket) : Bytes :=
  if p.version = 4 then
    let len := sizeofIphdr + tcpLength p
    let check := ~~~ calcChecksum 0 (ipv4Header ipprotoTcp len p.saddr.ip4 p.daddr.ip4 0)
    ipv4Header ipprotoTcp len p.saddr.ip4 p.daddr.ip4 check.toNat
  else ipv6Header ipprotoTcp (tcpLength p) p.saddr.ip6 p.daddr.ip6

/-- The buffer behind the IP header. -/
def segmentOf (p : TunPacket) : Bytes :=
  tcpHeader p (~~~ tcpChecksum p).toNat ++ optionBytes p ++ p.data

/-- What `write_tcp` hands to `write`. -/
def tunBytes (p : TunPacket) : Bytes := ipHeaderOf p ++ segmentOf p

/-! ## Reading back -/

structure Decoded where
  version : Nat
  saddr : Addr
  daddr : Addr
  header : TcpHeader
  data : Bytes
  deriving DecidableEq, Repr

/-- A TCP packet, read with the offsets of `handle_ip` and `handle_tcp`. -/
def readBack (fuel length : Nat) : Read (Option Decoded) := do
  let first ← u8 0
  let version := first / 16
  match ← locate version fuel length with
  | .pass p =>
    if p.protocol = ipprotoTcp then
      let addrs ← readAddrs version
      match ← tcpCall length p.payload with
      | .tcp header _ data datalen =>
        let bytes ← lookMany data datalen
        return some ⟨version, addrs.1, addrs.2, header, bytes⟩
      | _ => return none
    else return none
  | _ => return none

/-- `d` is what the session wrote, and the buffer is a correct packet with it. -/
structure Agrees (s : Tcp.Session) (data : Bytes) (syn ack fin rst : Bool) (bytes : Bytes)
    (after : Memory) (d : Decoded) : Prop where
  version : d.version = s.version
  saddr : addrKey s.version d.saddr = addrKey s.version s.daddr
  daddr : addrKey s.version d.daddr = addrKey s.version s.saddr
  source : d.header.source = s.dest
  dest : d.header.dest = s.source
  seq : d.header.seq = s.localSeq
  ackSeq : d.header.ackSeq = if ack then s.remoteSeq else 0
  flags : d.header.syn = syn ∧ d.header.ack = ack ∧ d.header.fin = fin ∧ d.header.rst = rst
  others : d.header.urg = false ∧ d.header.psh = false
  data : d.data = data
  length : promisedLength s.version (memoryOf bytes after) = bytes.length
  ipSum : s.version = 4 → Verifies (bytes.take sizeofIphdr)
  tcpSum : Verifies (receiverPseudoOf ipprotoTcp d.version (addrKey d.version d.saddr)
    (addrKey d.version d.daddr)
    (bytes.length - ipHeaderLength d.version) ++ bytes.drop (ipHeaderLength d.version))

/-! ## Fields read back -/

theorem value_be32 (i : Nat) (mem : Memory) : (be32 i).value mem =
    BitVec.ofNat 32 (65536 * (256 * (mem i).toNat + (mem (i + 1)).toNat) +
      (256 * (mem (i + 2)).toNat + (mem (i + 3)).toNat)) :=
  rfl

theorem doffOf_cases (p : TunPacket) :
    (optionBytes p).length = 0 ∧ doffOf p = 5 ∨ (optionBytes p).length = 8 ∧ doffOf p = 7 := by
  unfold doffOf optionBytes
  cases p.options with
  | none => exact .inl ⟨rfl, rfl⟩
  | some o =>
    obtain ⟨mss, ws⟩ := o
    exact .inr (by simp [le16Bytes, sizeofTcphdr])

/-- The header a packet has. -/
def headerOf (p : TunPacket) : TcpHeader where
  source := p.source
  dest := p.dest
  seq := p.seq
  ackSeq := p.ackSeq
  doff := doffOf p
  urg := false
  ack := p.ack
  psh := false
  rst := p.rst
  syn := p.syn
  fin := p.fin
  window := p.window.toNat

theorem flags_bits (fin syn rst ack : Bool) :
    let b := (UInt8.ofNat (fin.toNat + 2 * syn.toNat + 4 * rst.toNat + 16 * ack.toNat)).toNat
    b.testBit 5 = false ∧ b.testBit 4 = ack ∧ b.testBit 3 = false ∧ b.testBit 2 = rst ∧
      b.testBit 1 = syn ∧
      b.testBit 0 = fin := by
  revert fin syn rst ack
  decide

theorem readTcphdr_header (p : TunPacket) (check : Nat) (before rest : Bytes) (after : Memory)
    (hsource : p.source < 2 ^ 16) (hdest : p.dest < 2 ^ 16) :
    (readTcphdr before.length).value (memoryOf (before ++ (tcpHeader p check ++ rest)) after) =
      headerOf p := by
  have hmem := memoryOf_append before (tcpHeader p check ++ rest) after
  have hmem0 := hmem 0
  rw [Nat.add_zero] at hmem0
  have hoff : (UInt8.ofNat (16 * doffOf p)).toNat / 16 = doffOf p := by
    rcases doffOf_cases p with ⟨-, h⟩ | ⟨-, h⟩ <;> rw [h] <;> decide
  obtain ⟨hurg, hack, hpsh, hrst, hsyn, hfin⟩ := flags_bits p.fin p.syn p.rst p.ack
  simp only [readTcphdr, value_bind, value_be16, value_be32, value_u8, value_pure, Nat.add_assoc,
    hmem, hmem0]
  simp only [tcpHeader, be16Bytes, be32Bytes, List.cons_append, List.nil_append, List.append_assoc,
    Nat.reduceAdd, memoryOf_cons_zero, memoryOf_cons_succ]
  rw [be16_bytes hsource, be16_bytes hdest, be32_bytes, be32_bytes, be16_bytes p.window.isLt, hoff]
  simp only [flagsOf, hurg, hack, hpsh, hrst, hsyn, hfin]
  rfl

/-! ## The packet read back -/

theorem length_tcpHeader (p : TunPacket) (check : Nat) :
    (tcpHeader p check).length = sizeofTcphdr :=
  rfl

theorem length_segmentOf (p : TunPacket) : (segmentOf p).length = tcpLength p := by
  simp [segmentOf, length_tcpHeader, tcpLength, Nat.add_assoc]

/-- The segment behind an IP header, whatever that is. -/
theorem tcpCall_segment (p : TunPacket) (before : Bytes) (after : Memory)
    (hsource : p.source < 2 ^ 16) (hdest : p.dest < 2 ^ 16)
    (hfit : before.length + tcpLength p < 2 ^ 16) :
    (tcpCall (before ++ segmentOf p).length before.length).value
      (memoryOf (before ++ segmentOf p) after) =
        .tcp (headerOf p) before.length (before.length + 4 * doffOf p) p.data.length ∧
      (lookMany (before.length + 4 * doffOf p) p.data.length).value
        (memoryOf (before ++ segmentOf p) after) = p.data := by
  have hsegment : segmentOf p = tcpHeader p (~~~ tcpChecksum p).toNat ++
      (optionBytes p ++ p.data) := by
    simp [segmentOf]
  have hheader := readTcphdr_header p (~~~ tcpChecksum p).toNat before (optionBytes p ++ p.data)
    after hsource hdest
  rw [← hsegment] at hheader
  have hopt : sizeofTcphdr + castU8 (((doffOf p : Nat) - 5) * 4) = 4 * doffOf p := by
    rcases doffOf_cases p with ⟨-, h⟩ | ⟨-, h⟩ <;> rw [h] <;> decide
  have hlen : sizeofTcphdr + (optionBytes p).length = 4 * doffOf p := by
    rcases doffOf_cases p with ⟨h, h'⟩ | ⟨h, h'⟩ <;> rw [h, h'] <;> rfl
  constructor
  · have hdatalen : castU16 (((before ++ segmentOf p).length : Int) -
        (before.length + 4 * doffOf p : Nat)) = p.data.length := by
      rw [List.length_append, length_segmentOf]
      unfold tcpLength at hfit ⊢
      simp only [castU16]
      omega
    simp only [tcpCall, value_bind, value_pure, hheader]
    rw [Nat.add_assoc, show (headerOf p).doff = doffOf p from rfl, hopt, hdatalen]
  · have hdata := lookMany_memoryOf
      (before ++ tcpHeader p (~~~ tcpChecksum p).toNat ++ optionBytes p) p.data [] after
    simp only [List.length_append, length_tcpHeader, List.append_nil, Nat.add_assoc, hlen] at hdata
    rw [hsegment]
    simpa using hdata

theorem readBack_of {version fuel length payload d n : Nat} {h : TcpHeader} {mem : Memory}
    {saddr daddr : Addr} (hfirst : (mem 0).toNat / 16 = version)
    (hlocate : (locate version fuel length).value mem = .pass ⟨ipprotoTcp, payload⟩)
    (haddrs : (readAddrs version).value mem = (saddr, daddr))
    (hcall : (tcpCall length payload).value mem = .tcp h payload d n) :
    (readBack fuel length).value mem =
      some ⟨version, saddr, daddr, h, (lookMany d n).value mem⟩ := by
  simp [readBack, hfirst, hlocate, haddrs, hcall]

/-! ## Checksums -/

section

variable (p : TunPacket)

theorem pseudoOf_sum :
    sumLe (pseudoOf p) = sumLe (addrKey p.version p.saddr) +
      sumLe (addrKey p.version p.daddr) + 1536 +
      sumLe (be16Bytes (tcpLength p)) := by
  rw [pseudoOf, senderPseudoOf_sum _ _ _ (addrKey_even _ _) (addrKey_even _ _)]
  rfl

theorem length_pseudoOf : (pseudoOf p).length ≤ 40 ∧ (pseudoOf p).length % 2 = 0 := by
  have hs4 := length_ip4 p.saddr
  have hd4 := length_ip4 p.daddr
  have hs6 := p.saddr.length_eq
  have hd6 := p.daddr.length_eq
  unfold pseudoOf senderPseudoOf addrKey
  split
  · simp [be16Bytes, hs4, hd4]
  · simp [be16Bytes, hs6, hd6]

/-- The segment around its checksum field. -/
theorem segment_eq (check : Nat) : tcpHeader p check ++ optionBytes p ++ p.data =
    (be16Bytes p.source ++ be16Bytes p.dest ++ be32Bytes p.seq ++ be32Bytes p.ackSeq ++
      [UInt8.ofNat (16 * doffOf p), UInt8.ofNat (flagsOf p)] ++ be16Bytes p.window.toNat) ++
      (le16Bytes check ++ ([0, 0] ++ optionBytes p ++ p.data)) := by
  simp only [tcpHeader, List.append_assoc]

theorem tcpChecksum_toNat (hdata : p.data.length < 2 ^ 16) :
    (tcpChecksum p).toNat =
      carry (sumLe (pseudoOf p) + sumLe (tcpHeader p 0 ++ optionBytes p ++ p.data)) := by
  have hopt : (optionBytes p).length = 0 ∨ (optionBytes p).length = 8 := by
    rcases doffOf_cases p with ⟨h, -⟩ | ⟨h, -⟩ <;> omega
  obtain ⟨hpseudo, hpseudo2⟩ := length_pseudoOf p
  have hheader : (tcpHeader p 0).length = 20 := length_tcpHeader p 0
  have hpieces := foldl_zero_toNat [pseudoOf p, tcpHeader p 0, optionBytes p, p.data]
    (by simp [hheader, hpseudo2]; omega) (by simp [hheader]; omega)
  rw [← sumLe_append _ hpseudo2, tcpChecksum]
  simpa using hpieces

/-- The sum over the segment, from where the receiver starts. -/
theorem segmentOf_verifies (hlen : tcpLength p < 2 ^ 16) :
    Verifies (receiverPseudoOf ipprotoTcp p.version (addrKey p.version p.saddr)
      (addrKey p.version p.daddr) (tcpLength p) ++
      segmentOf p) := by
  have hdata : p.data.length < 2 ^ 16 := by
    unfold tcpLength at hlen
    omega
  have hsum := receiverPseudoOf_sum ipprotoTcp p.version _ (addrKey_even p.version p.saddr)
    (addrKey_even p.version p.daddr) hlen
  have hpseudo : sumLe (receiverPseudoOf ipprotoTcp p.version (addrKey p.version p.saddr)
    (addrKey p.version p.daddr)
      (tcpLength p)) = sumLe (pseudoOf p) := by
    rw [hsum, pseudoOf_sum]
    rfl
  have hproto : (ipprotoTcp : UInt8).toNat = 6 := rfl
  rw [segmentOf, segment_eq]
  apply (field_verifies_iff (sumLe (pseudoOf p))
    (receiverPseudoOf_even _ _ _ (addrKey_even _ _) (addrKey_even _ _))
    (by simp [be16Bytes, be32Bytes]) (by omega) ?_).mpr (by rw [hpseudo])
  rw [← segment_eq, not_toNat, tcpChecksum_toNat p hdata]

end

/-! ## The whole packet -/

theorem length_ipHeaderOf (p : TunPacket) : (ipHeaderOf p).length = ipHeaderLength p.version := by
  have hs4 := length_ip4 p.saddr
  have hd4 := length_ip4 p.daddr
  have hs6 := p.saddr.length_eq
  have hd6 := p.daddr.length_eq
  by_cases h : p.version = 4
  · simp [ipHeaderOf, ipHeaderLength, h, ipv4Header, be16Bytes, le16Bytes, hs4, hd4, sizeofIphdr]
  · simp [ipHeaderOf, ipHeaderLength, h, ipv6Header, be16Bytes, hs6, hd6, sizeofIp6Hdr]

theorem length_tunBytes (p : TunPacket) :
    (tunBytes p).length = ipHeaderLength p.version + tcpLength p := by
  rw [tunBytes, List.length_append, length_ipHeaderOf, length_segmentOf]

theorem tunBytes_ip4 (p : TunPacket) (h : p.version = 4) : ∃ check,
    tunBytes p = ipv4Header ipprotoTcp (sizeofIphdr + tcpLength p) p.saddr.ip4 p.daddr.ip4
      check ++ segmentOf p := by
  simp only [tunBytes, ipHeaderOf, h, if_true]
  exact ⟨_, rfl⟩

theorem tunBytes_ip6 (p : TunPacket) (h : p.version = 6) :
    tunBytes p = ipv6Header ipprotoTcp (tcpLength p) p.saddr.ip6 p.daddr.ip6 ++ segmentOf p := by
  simp only [tunBytes, ipHeaderOf, h, show ¬ (6 : Nat) = 4 by decide, if_false]

theorem tunBytes_read (p : TunPacket) (fuel : Nat) (after : Memory)
    (hversion : p.version = 4 ∨ p.version = 6) (hsource : p.source < 2 ^ 16)
    (hdest : p.dest < 2 ^ 16) (hfit : (tunBytes p).length < 2 ^ 16) :
    (readBack fuel (tunBytes p).length).value (memoryOf (tunBytes p) after) =
        some ⟨p.version, addrOf (addrKey p.version p.saddr), addrOf (addrKey p.version p.daddr),
          headerOf p, p.data⟩ ∧
      promisedLength p.version (memoryOf (tunBytes p) after) = (tunBytes p).length := by
  have hlength := length_tunBytes p
  have hheader := length_ipHeaderOf p
  have hsegment := length_segmentOf p
  obtain ⟨hcall, hdata⟩ := tcpCall_segment p (ipHeaderOf p) after hsource hdest (by omega)
  have hbytes : tunBytes p = ipHeaderOf p ++ segmentOf p := rfl
  rw [← hbytes] at hcall hdata
  rcases hversion with h | h
  · simp only [ipHeaderLength, h, if_true] at hlength hheader
    obtain ⟨check, hip⟩ := tunBytes_ip4 p h
    have hlocated := locate_ipv4Header ipprotoTcp (segmentOf p) check fuel after
      (length_ip4 p.saddr) (length_ip4 p.daddr)
      (by rw [hsegment]) (by omega)
    rw [← hip, ← hlength] at hlocated
    obtain ⟨hfirst, htotal, hlocate, haddrs⟩ := hlocated
    rw [hheader] at hcall hdata
    constructor
    · rw [readBack_of hfirst hlocate haddrs hcall, hdata]
      simp only [h, addrKey, if_true]
    · simpa only [promisedLength, h, if_true] using htotal
  · have hnot : ¬ (6 : Nat) = 4 := by decide
    simp only [ipHeaderLength, h, hnot, if_false] at hlength hheader
    have hlocated := locate_ipv6Header ipprotoTcp (.inl rfl) (segmentOf p) fuel after
      p.saddr.length_eq p.daddr.length_eq
      (show tcpLength p < 2 ^ 16 by omega)
    rw [← tunBytes_ip6 p h, hsegment, ← hlength] at hlocated
    obtain ⟨hfirst, hplen, hlocate, haddrs⟩ := hlocated
    rw [hheader] at hcall hdata
    constructor
    · rw [readBack_of hfirst hlocate haddrs hcall, hdata]
      simp only [h, addrKey, hnot, if_false]
    · simp only [promisedLength, h, hnot, if_false, hplen]
      omega

theorem ipHeaderOf_verifies (p : TunPacket) (h : p.version = 4) : Verifies (ipHeaderOf p) := by
  simp only [ipHeaderOf, h, if_true]
  exact ipv4Header_verifies ipprotoTcp _ (length_ip4 p.saddr) (length_ip4 p.daddr)

/-- A receiver of the packet reads what was written, and its checksums are right. -/
theorem write_tcp_agrees (s : Tcp.Session) (data : Bytes) (syn ack fin rst : Bool) (fuel : Nat)
    (after : Memory) (hversion : s.version = 4 ∨ s.version = 6) (hsource : s.source < 2 ^ 16)
    (hdest : s.dest < 2 ^ 16) (hfit : (tunBytes (writeTcp s data syn ack fin rst)).length ≤ 65535) :
    let bytes := tunBytes (writeTcp s data syn ack fin rst)
    ∃ d, (readBack fuel bytes.length).value (memoryOf bytes after) = some d ∧
      Agrees s data syn ack fin rst bytes after d := by
  intro bytes
  obtain ⟨hread, hpromised⟩ :=
    tunBytes_read (writeTcp s data syn ack fin rst) fuel after hversion hdest hsource (by omega)
  have hlength := length_tunBytes (writeTcp s data syn ack fin rst)
  have hheader := length_ipHeaderOf (writeTcp s data syn ack fin rst)
  have htcp : bytes.length - ipHeaderLength s.version =
      tcpLength (writeTcp s data syn ack fin rst) := by
    show (tunBytes (writeTcp s data syn ack fin rst)).length - _ = _
    rw [hlength]
    exact Nat.add_sub_cancel_left _ _
  have hdrop : bytes.drop (ipHeaderLength s.version) =
      segmentOf (writeTcp s data syn ack fin rst) :=
    List.drop_left' hheader
  refine ⟨_, hread, ?_⟩
  constructor
  case version | source | dest | seq | ackSeq | data => rfl
  case flags => exact ⟨rfl, rfl, rfl, rfl⟩
  case others => exact ⟨rfl, rfl⟩
  case saddr => exact addrKey_addrOf s.version s.daddr
  case daddr => exact addrKey_addrOf s.version s.saddr
  case length => exact hpromised
  case ipSum =>
    intro h
    have htake : bytes.take sizeofIphdr = ipHeaderOf (writeTcp s data syn ack fin rst) :=
      List.take_left' (hheader.trans (if_pos h))
    rw [htake]
    exact ipHeaderOf_verifies _ h
  case tcpSum =>
    show Verifies (receiverPseudoOf ipprotoTcp s.version
      (addrKey s.version (addrOf (addrKey s.version s.daddr)))
      (addrKey s.version (addrOf (addrKey s.version s.saddr)))
        (bytes.length - ipHeaderLength s.version) ++
      bytes.drop (ipHeaderLength s.version))
    rw [addrKey_addrOf, addrKey_addrOf, htcp, hdrop]
    exact segmentOf_verifies (writeTcp s data syn ack fin rst) (by omega)

theorem write_tcp_agrees_odd :
    let s := Tcp.newSession (Tcp.plainSyn 443) (Tcp.synPacket [])
    let bytes := tunBytes (writeTcp s [1, 2, 3] true true false false)
    ∃ d, (readBack 0 bytes.length).value (memoryOf bytes fun _ => 0) = some d ∧
      Agrees s [1, 2, 3] true true false false bytes (fun _ => 0) d :=
  write_tcp_agrees (Tcp.newSession (Tcp.plainSyn 443) (Tcp.synPacket [])) [1, 2, 3] true true false
    false 0 (fun _ => 0)
    (by decide) (by decide) (by decide) (by decide +kernel)

end PdaNetClient.Ip
