import PdaNetClient.PacketDecode

/-!
# The packets of a client

What a client may send: a header of either version without extension headers, and a
datagram, a segment or an ICMP message behind it, each with the fields that the program
does not look at left open. The buffer that holds such a packet is the step of the table on
it, but for an ICMP message of less than 28 bytes, which is dropped.
-/
namespace PdaNetClient.Ip

open Reading Table Runs Datagram
open Http (Memory memoryOf)
open Tcp (Addr getDefaultMss)

set_option autoImplicit false

/-! ## The format -/

/-- Options in whole words, as a header counts them. -/
structure Words where
  bytes : Bytes
  count : Nat
  length_eq : bytes.length = 4 * count
  count_le : count ≤ 10

inductive Head where
  | v4 (tos : UInt8) (ident : BitVec 16) (dontFragment : Bool) (ttl : UInt8) (check : BitVec 16)
      (options : Words)
  | v6 (traffic : Fin 16) (label : UInt8 × UInt8 × UInt8) (hopLimit : UInt8)

namespace Head

def version : Head → Nat
  | v4 .. => 4
  | v6 .. => 6

def length : Head → Nat
  | v4 _ _ _ _ _ options => sizeofIphdr + 4 * options.count
  | v6 .. => sizeofIp6Hdr

/-- The header in front of `n` bytes. -/
def bytes (protocol : UInt8) (n : Nat) (saddr daddr : Addr) : Head → Bytes
  | v4 tos ident dontFragment ttl check options =>
    [UInt8.ofNat (69 + options.count), tos] ++ be16Bytes (sizeofIphdr + 4 * options.count + n) ++
      be16Bytes ident.toNat ++
      [if dontFragment then 0x40 else 0, 0, ttl, protocol] ++ be16Bytes check.toNat ++ saddr.ip4 ++
      daddr.ip4 ++ options.bytes
  | v6 traffic label hopLimit =>
    [UInt8.ofNat (96 + traffic), label.1, label.2.1, label.2.2] ++ be16Bytes n ++
      [protocol, hopLimit] ++ saddr.ip6 ++ daddr.ip6

end Head

/-- A segment with its option area. -/
structure TcpBody where
  source : BitVec 16
  dest : BitVec 16
  segment : Tcp.Packet
  ecn : Fin 4
  check : BitVec 16
  urgent : BitVec 16
  opts : List Opt
  padding : Option Bytes
  count : Nat
  length_eq : (areaBytes opts padding).length = 4 * count
  count_le : count ≤ 10

inductive Body where
  | udp (source dest check : BitVec 16) (data : Bytes)
  | tcp (t : TcpBody)
  | icmp (type code : UInt8) (check id : BitVec 16) (rest : Bytes)

def flagByte (p : Tcp.Packet) (ecn : Fin 4) : UInt8 :=
  UInt8.ofNat (p.fin.toNat + 2 * p.syn.toNat + 4 * p.rst.toNat + 8 * p.psh.toNat +
    16 * p.ack.toNat + 32 * p.urg.toNat + 64 * ecn)

def TcpBody.header (t : TcpBody) : Bytes :=
  be16Bytes t.source.toNat ++ be16Bytes t.dest.toNat ++ be32Bytes t.segment.seq ++
    be32Bytes t.segment.ackSeq ++
    [UInt8.ofNat (16 * (5 + t.count)), flagByte t.segment t.ecn] ++
    be16Bytes t.segment.window.toNat ++
    be16Bytes t.check.toNat ++ be16Bytes t.urgent.toNat

/-- The identifier is stored as the program reads it. -/
def Body.bytes : Body → Bytes
  | udp source dest check data =>
    be16Bytes source.toNat ++ be16Bytes dest.toNat ++ be16Bytes (sizeofUdphdr + data.length) ++
      be16Bytes check.toNat ++ data
  | tcp t => t.header ++ areaBytes t.opts t.padding ++ t.segment.data.bytes
  | icmp type code check id rest =>
    [type, code] ++ be16Bytes check.toNat ++ le16Bytes id.toNat ++ rest

def Body.protocol (version : Nat) : Body → UInt8
  | udp .. => ipprotoUdp
  | tcp _ => ipprotoTcp
  | icmp .. => if version = 4 then ipprotoIcmp else ipprotoIcmpv6

structure ClientPacket where
  head : Head
  saddr : Addr
  daddr : Addr
  body : Body

namespace ClientPacket

variable (p : ClientPacket)

def version : Nat := p.head.version

def bytes : Bytes :=
  p.head.bytes (p.body.protocol p.version) p.body.bytes.length p.saddr p.daddr ++ p.body.bytes

/-- An address as the program stores it. -/
def stored (a : Addr) : Addr := addrOf (addrKey p.version a)

/-- The options of the segment over the defaults. -/
def options (t : TcpBody) : Options := optionsOf t.opts ⟨getDefaultMss p.version, 0⟩

/-- The pseudo-header for the message that is sent. -/
def pseudo : Bytes :=
  p.daddr.ip6 ++ p.saddr.ip6 ++ be16Bytes p.body.bytes.length ++ [0, 0] ++ [0, 0, 0, ipprotoIcmpv6]

def packet : Packet :=
  match p.body with
  | .udp source dest _ data =>
    .udp ⟨p.version, p.stored p.saddr, source.toNat, p.stored p.daddr, dest.toNat, data⟩
  | .tcp t => .tcp ⟨p.version, p.stored p.saddr, t.source.toNat, p.stored p.daddr, t.dest.toNat,
      (p.options t).mss, (p.options t).ws, t.segment⟩
  | .icmp type _ _ id _ =>
    .icmp ⟨p.version, p.stored p.saddr, p.stored p.daddr, type, id,
      Icmp.modifyId p.version p.pseudo p.body.bytes⟩

/-- "ICMP packet too short" -/
def tooShort : Bool :=
  match p.body with
  | .icmp .. => decide (p.body.bytes.length < sizeofIcmp)
  | _ => false

end ClientPacket

/-! ## The IP header -/

/-- The header is where it should be, and the addresses are read from it. -/
structure Located.Behind (mem : Memory) (turns length version : Nat) (loc : Located)
    (saddr daddr : Addr) : Prop where
  first : (mem 0).toNat / 16 = version
  locate : (locate version turns length).value mem = .pass loc
  addrs : (readAddrs version).value mem =
    (addrOf (addrKey version saddr), addrOf (addrKey version daddr))

theorem Head.length_bytes (h : Head) (protocol : UInt8) (n : Nat) (saddr daddr : Addr) :
    (h.bytes protocol n saddr daddr).length = h.length := by
  have hs4 := length_ip4 saddr
  have hd4 := length_ip4 daddr
  have hs6 := saddr.length_eq
  have hd6 := daddr.length_eq
  cases h with
  | v4 tos ident dontFragment ttl check options =>
    simp [Head.bytes, Head.length, be16Bytes, hs4, hd4, options.length_eq, sizeofIphdr]
    omega
  | v6 => simp [Head.bytes, Head.length, be16Bytes, hs6, hd6, sizeofIp6Hdr]

/-- The addresses stand behind the first bytes of a header. -/
theorem addresses_stand (first saddr daddr rest : Bytes) (after : Memory) {k n : Nat}
    (hk : first.length = k) (hs : saddr.length = n) (hd : daddr.length = n) :
    let mem := memoryOf (first ++ (saddr ++ (daddr ++ rest))) after
    (lookMany k n).value mem = saddr ∧ (lookMany (k + n) n).value mem = daddr := by
  have hsaddr := lookMany_memoryOf first saddr (daddr ++ rest) after
  have hdaddr := lookMany_memoryOf (first ++ saddr) daddr rest after
  rw [List.append_assoc, List.length_append, hk, hs, hd] at hdaddr
  rw [hk, hs] at hsaddr
  exact ⟨hsaddr, hdaddr⟩

theorem addrs_behind (version : Nat) (first rest : Bytes) (saddr daddr : Addr) (after : Memory)
    (hfirst : first.length = if version = 4 then 12 else 8) :
    (readAddrs version).value
      (memoryOf (first ++ (addrKey version saddr ++ (addrKey version daddr ++ rest))) after) =
      (addrOf (addrKey version saddr), addrOf (addrKey version daddr)) := by
  have hs := length_addrKey version saddr
  have hd := length_addrKey version daddr
  obtain ⟨hsaddr, hdaddr⟩ :=
    addresses_stand first (addrKey version saddr) (addrKey version daddr) rest after hfirst hs hd
  by_cases h : version = 4
  · simp only [h, if_true] at hsaddr hdaddr ⊢
    simp only [readAddrs, if_true, value_bind, value_pure, hsaddr, hdaddr]
  · simp only [h, if_false] at hsaddr hdaddr ⊢
    simp only [readAddrs, h, if_false, value_bind, value_pure, hsaddr, hdaddr]

section

variable (protocol : UInt8) (saddr daddr : Addr) (behind : Bytes) (after : Memory) (turns : Nat)

theorem located_v4 (tos : UInt8) (ident : BitVec 16) (dontFragment : Bool) (ttl : UInt8)
    (check : BitVec 16) (options : Words)
    (hfit : sizeofIphdr + 4 * options.count + behind.length < 2 ^ 16) :
    (Located.mk protocol (sizeofIphdr + 4 * options.count)).Behind
      (memoryOf ((Head.v4 tos ident dontFragment ttl check options).bytes protocol behind.length
        saddr daddr ++ behind) after) turns
      (sizeofIphdr + 4 * options.count + behind.length) 4 saddr daddr := by
  have hcount := options.count_le
  generalize hmem : memoryOf ((Head.v4 tos ident dontFragment ttl check options).bytes protocol
    behind.length saddr daddr ++ behind)
    after = mem
  generalize hlen : sizeofIphdr + 4 * options.count + behind.length = len at *
  have haddrs : (readAddrs 4).value mem = (addrOf saddr.ip4, addrOf daddr.ip4) := by
    have hbehind := addrs_behind 4 ([UInt8.ofNat (69 + options.count), tos] ++ be16Bytes len ++
      be16Bytes ident.toNat ++
      [if dontFragment then 0x40 else 0, 0, ttl, protocol] ++
      be16Bytes check.toNat) (options.bytes ++ behind) saddr daddr after rfl
    simp only [List.append_assoc] at hbehind
    rw [← hmem]
    simp only [Head.bytes, List.append_assoc, hlen]
    exact hbehind
  simp only [Head.bytes, be16Bytes, List.cons_append, List.nil_append, List.append_assoc,
    hlen] at hmem
  have h0 : (mem 0).toNat = 69 + options.count := by
    rw [← hmem, memoryOf_cons_zero, UInt8.toNat_ofNat']
    omega
  have h7 : mem 7 = 0 := by rw [← hmem]; simp
  have h9 : mem 9 = protocol := by rw [← hmem]; simp
  have htotal : totLen mem = len := by
    have h2 : mem 2 = UInt8.ofNat (len / 256) := by rw [← hmem]; simp
    have h3 : mem 3 = UInt8.ofNat len := by rw [← hmem]; simp
    rw [totLen, h2, h3, be16_bytes hfit]
  have hihl : ihl mem = 5 + options.count := by
    unfold ihl
    omega
  have hpayload : payloadAt mem = sizeofIphdr + 4 * options.count := by
    rw [payloadAt_of_ihl (by omega), hihl, sizeofIphdr]
    omega
  refine ⟨by omega, ?_, haddrs⟩
  show (locateIp4 len).value mem = _
  rw [locateIp4_value, hpayload, h9, if_neg]
  simp only [fragmentTested, h7, htotal, ne_eq, not_true, or_false, not_or]
  exact ⟨by omega, by decide⟩

theorem located_v6 (traffic : Fin 16) (label : UInt8 × UInt8 × UInt8) (hopLimit : UInt8)
    (hupper : isUpperLayer protocol) :
    (Located.mk protocol sizeofIp6Hdr).Behind
      (memoryOf ((Head.v6 traffic label hopLimit).bytes protocol behind.length saddr daddr ++
        behind) after) turns
      (sizeofIp6Hdr + behind.length) 6 saddr daddr := by
  generalize hmem : memoryOf ((Head.v6 traffic label hopLimit).bytes protocol behind.length saddr
    daddr ++ behind) after = mem
  have haddrs : (readAddrs 6).value mem = (addrOf saddr.ip6, addrOf daddr.ip6) := by
    have hbehind := addrs_behind 6 ([UInt8.ofNat (96 + traffic), label.1, label.2.1, label.2.2] ++
      be16Bytes behind.length ++
      [protocol, hopLimit]) behind saddr daddr after rfl
    simp only [List.append_assoc] at hbehind
    rw [← hmem]
    simp only [Head.bytes, List.append_assoc]
    exact hbehind
  simp only [Head.bytes, be16Bytes, List.cons_append, List.nil_append, List.append_assoc] at hmem
  have h0 : (mem 0).toNat = 96 + traffic := by
    rw [← hmem, memoryOf_cons_zero, UInt8.toNat_ofNat']
    omega
  have h6 : mem 6 = protocol := by rw [← hmem]; simp
  refine ⟨by omega, ?_, haddrs⟩
  have hupper6 : isUpperLayer (mem 6) := by rwa [h6]
  rw [(locate6_upper turns (Nat.le_add_right _ _) hupper6).1, h6]

end

theorem Head.located (h : Head) {protocol : UInt8} (hupper : isUpperLayer protocol)
    (saddr daddr : Addr) (behind : Bytes) (after : Memory) (turns : Nat)
    (hfit : h.length + behind.length < 2 ^ 16) :
    (Located.mk protocol h.length).Behind
      (memoryOf (h.bytes protocol behind.length saddr daddr ++ behind) after) turns
      (h.length + behind.length) h.version saddr daddr := by
  cases h with
  | v4 tos ident dontFragment ttl check options =>
    exact located_v4 protocol saddr daddr behind after turns tos ident dontFragment ttl check
      options hfit
  | v6 traffic label hopLimit =>
    exact located_v6 protocol saddr daddr behind after turns traffic label hopLimit hupper

/-! ## What stands behind it -/

section

variable (abi : Abi) {mem : Memory} {turns length version : Nat} {loc : Located}
    {saddr daddr : Addr}

theorem handleIp_located (h : loc.Behind mem turns length version saddr daddr) (c : Config)
    (l : Loop) :
    (handleIp abi c l turns length).value mem =
      (dispatch abi c l length version loc).value mem := by
  simp [handleIp, h.first, h.locate]

/-- The ports of a datagram or a segment. -/
theorem readFlow_udp (h : loc.Behind mem turns length version saddr daddr)
    (hprotocol : loc.protocol = ipprotoUdp)
    (hroom : sizeofUdphdr ≤ sizeSub abi length loc.payload) :
    (readFlow abi length version loc).value mem = some
      ⟨version, ipprotoUdp, addrOf (addrKey version saddr), addrOf (addrKey version daddr),
        (be16 loc.payload).value mem, (be16 (loc.payload + 2)).value mem, false⟩ := by
  have hicmp : ¬ isIcmp ipprotoUdp := by decide
  simp only [readFlow, ↓value_bind, h.addrs, hprotocol, if_neg hicmp, if_true,
    if_neg (Nat.not_lt.mpr hroom), value_pure]

theorem readFlow_tcp (h : loc.Behind mem turns length version saddr daddr)
    (hprotocol : loc.protocol = ipprotoTcp)
    (hroom : sizeofTcphdr ≤ sizeSub abi length loc.payload) :
    (readFlow abi length version loc).value mem = some
      ⟨version, ipprotoTcp, addrOf (addrKey version saddr), addrOf (addrKey version daddr),
        (be16 loc.payload).value mem, (be16 (loc.payload + 2)).value mem,
        ((readTcphdr loc.payload).value mem).syn⟩ := by
  have hicmp : ¬ isIcmp ipprotoTcp := by decide
  have hudp : ipprotoTcp ≠ ipprotoUdp := by decide
  simp only [readFlow, ↓value_bind, h.addrs, hprotocol, if_neg hicmp, if_neg hudp, if_true,
    if_neg (Nat.not_lt.mpr hroom), value_pure]
  rfl

theorem readFlow_icmp (h : loc.Behind mem turns length version saddr daddr)
    (hicmp : isIcmp loc.protocol) :
    (readFlow abi length version loc).value mem =
      if sizeSub abi length loc.payload < sizeofIcmp then none
      else some ⟨version, loc.protocol, addrOf (addrKey version saddr),
        addrOf (addrKey version daddr), (be16 (loc.payload + 4)).value mem,
        (be16 (loc.payload + 4)).value mem, false⟩ := by
  simp only [readFlow, ↓value_bind, h.addrs, if_pos hicmp, ↓value_ite, value_pure]

theorem handleBuffer_located (h : loc.Behind mem turns length version saddr daddr)
    (hupper : isUpperLayer loc.protocol) (c : Config) (e : PacketEnv) (l : Loop) :
    handleBuffer c e turns ⟨length, mem⟩ l =
      match (readFlow c.abi length version loc).value mem with
      | none => some (l, [])
      | some f =>
        if overLimit c l f then some (l, []) else handle c e turns mem f
          ((protocolCall c.abi length loc).value mem) l := by
  unfold handleBuffer
  simp only [handleIp_located c.abi h c l]
  cases hflow : (readFlow c.abi length version loc).value mem with
  | none => simp only [(dispatch_none c.abi c l length version hflow).1]
  | some f =>
    cases hlimit : overLimit c l f with
    | true => simp [(dispatch_limit c.abi c l length version hflow hlimit).1, hlimit]
    | false => simp [(dispatch_call c.abi c l length version hflow hlimit hupper).1, hlimit]

end

/-! ## Datagrams -/

section

variable {before behind : Bytes} (after : Memory)

theorem udp_fields (source dest check : BitVec 16) (data : Bytes) {mem : Memory}
    (hbytes : mem = memoryOf (before ++ (Body.udp source dest check data).bytes) after) :
    (be16 before.length).value mem = source.toNat ∧
    (be16 (before.length + 2)).value mem = dest.toNat ∧
      (lookMany (before.length + sizeofUdphdr) data.length).value mem = data := by
  have hmem := memoryOf_append before (Body.udp source dest check data).bytes after
  rw [← hbytes] at hmem
  have hmem0 := hmem 0
  rw [Nat.add_zero] at hmem0
  refine ⟨?_, ?_, ?_⟩
  · rw [value_be16, hmem0, hmem]
    exact be16_bytes source.isLt
  · rw [value_be16, Nat.add_assoc, hmem, hmem]
    exact be16_bytes dest.isLt
  · have hdata := lookMany_memoryOf (before ++ (be16Bytes source.toNat ++ be16Bytes dest.toNat ++
      be16Bytes (sizeofUdphdr + data.length) ++ be16Bytes check.toNat)) data [] after
    have hlist : ∀ xs : Bytes, before ++ xs ++ data = before ++ (xs ++ data) :=
      fun xs => List.append_assoc before xs data
    rw [List.length_append, List.append_nil, hlist] at hdata
    rw [hbytes]
    exact hdata

/-! ## Segments -/

theorem flagByte_bits (p : Tcp.Packet) (ecn : Fin 4) :
    (flagByte p ecn).toNat.testBit 5 = p.urg ∧ (flagByte p ecn).toNat.testBit 4 = p.ack ∧
      (flagByte p ecn).toNat.testBit 3 = p.psh ∧ (flagByte p ecn).toNat.testBit 2 = p.rst ∧
      (flagByte p ecn).toNat.testBit 1 = p.syn ∧ (flagByte p ecn).toNat.testBit 0 = p.fin := by
  have hall : ∀ (fin syn rst psh ack urg : Bool) (ecn : Fin 4),
      let b := (UInt8.ofNat (fin.toNat + 2 * syn.toNat + 4 * rst.toNat + 8 * psh.toNat +
        16 * ack.toNat + 32 * urg.toNat +
        64 * ecn)).toNat
      b.testBit 5 = urg ∧ b.testBit 4 = ack ∧ b.testBit 3 = psh ∧ b.testBit 2 = rst ∧
        b.testBit 1 = syn ∧ b.testBit 0 = fin := by
    decide +kernel
  exact hall p.fin p.syn p.rst p.psh p.ack p.urg ecn

/-- The header that a client's segment has. -/
def TcpBody.fields (t : TcpBody) : TcpHeader where
  source := t.source.toNat
  dest := t.dest.toNat
  seq := t.segment.seq
  ackSeq := t.segment.ackSeq
  doff := 5 + t.count
  urg := t.segment.urg
  ack := t.segment.ack
  psh := t.segment.psh
  rst := t.segment.rst
  syn := t.segment.syn
  fin := t.segment.fin
  window := t.segment.window.toNat

theorem readTcphdr_client (t : TcpBody) :
    (readTcphdr before.length).value (memoryOf (before ++ (t.header ++ behind)) after) =
      t.fields := by
  have hmem := memoryOf_append before (t.header ++ behind) after
  have hmem0 := hmem 0
  rw [Nat.add_zero] at hmem0
  have hcount := t.count_le
  have hoff : (UInt8.ofNat (16 * (5 + t.count))).toNat / 16 = 5 + t.count := by
    rw [UInt8.toNat_ofNat']
    omega
  obtain ⟨hurg, hack, hpsh, hrst, hsyn, hfin⟩ := flagByte_bits t.segment t.ecn
  simp only [readTcphdr, value_bind, value_be16, value_be32, value_u8, value_pure, Nat.add_assoc,
    hmem, hmem0]
  simp only [TcpBody.header, be16Bytes, be32Bytes, List.cons_append, List.nil_append, Nat.reduceAdd,
    memoryOf_cons_zero, memoryOf_cons_succ]
  rw [be16_bytes t.source.isLt, be16_bytes t.dest.isLt, be32_bytes, be32_bytes,
    be16_bytes t.segment.window.isLt, hoff]
  simp only [hurg, hack, hpsh, hrst, hsyn, hfin]
  rfl

theorem memoryOf_behind (xs ys : Bytes) :
    memoryOf (xs ++ ys) after = memoryOf xs (memoryOf ys after) := by
  funext i
  by_cases h : i < xs.length
  · have hlong : i < (xs ++ ys).length := by
      rw [List.length_append]
      omega
    simp only [memoryOf, h, hlong, dif_pos, List.getElem_append_left]
  · obtain ⟨k, rfl⟩ := Nat.exists_eq_add_of_le (Nat.not_lt.mp h)
    rw [memoryOf_append]
    simp [memoryOf]

theorem length_header (t : TcpBody) : t.header.length = sizeofTcphdr := rfl

/-- A client's segment as the program reads it. -/
theorem segment_read (t : TcpBody) (version turns : Nat) (hturns : 40 ≤ turns) {mem : Memory}
    (hbytes : mem = memoryOf (before ++ (Body.tcp t).bytes) after) :
    (readTcphdr before.length).value mem = t.fields ∧
      (decodeOptions version turns (4 * t.count) (before.length + sizeofTcphdr)).value mem =
        some (optionsOf t.opts ⟨getDefaultMss version, 0⟩) ∧
      (lookMany (before.length + sizeofTcphdr + 4 * t.count) t.segment.data.bytes.length).value
        mem = t.segment.data.bytes := by
  have hcount := t.count_le
  have hlen : (before ++ t.header).length = before.length + sizeofTcphdr := by
    rw [List.length_append, length_header]
  have hparts : before ++ (Body.tcp t).bytes =
      before ++ t.header ++ areaBytes t.opts t.padding ++ t.segment.data.bytes := by
    simp only [Body.bytes, List.append_assoc]
  refine ⟨?_, ?_, ?_⟩
  · rw [hbytes, hparts, List.append_assoc, List.append_assoc]
    exact readTcphdr_client after t
  · have hdecode := decode_areaBytes version t.opts t.padding (before ++ t.header)
      (memoryOf t.segment.data.bytes after) turns
      (by rw [t.length_eq]; omega)
    rw [← memoryOf_behind, ← hparts, ← hbytes, hlen, t.length_eq] at hdecode
    exact hdecode
  · have hdata := lookMany_memoryOf (before ++ t.header ++ areaBytes t.opts t.padding)
      t.segment.data.bytes [] after
    rw [List.append_nil, ← hparts, ← hbytes, List.length_append, hlen, t.length_eq] at hdata
    exact hdata

/-! ## ICMP messages -/

theorem icmp_fields (type code : UInt8) (check id : BitVec 16) (rest : Bytes) {mem : Memory}
    (hbytes : mem = memoryOf (before ++ (Body.icmp type code check id rest).bytes) after) :
    mem before.length = type ∧ BitVec.ofNat 16 ((le16 (before.length + 4)).value mem) = id ∧
      (lookMany before.length (Body.icmp type code check id rest).bytes.length).value mem =
        (Body.icmp type code check id rest).bytes := by
  have hmem := memoryOf_append before (Body.icmp type code check id rest).bytes after
  rw [← hbytes] at hmem
  have hmem0 := hmem 0
  rw [Nat.add_zero] at hmem0
  refine ⟨?_, ?_, ?_⟩
  · rw [hmem0]
    simp [Body.bytes]
  · have hid :
        (UInt8.ofNat id.toNat).toNat + 256 * (UInt8.ofNat (id.toNat / 256)).toNat = id.toNat := by
      have hlt := id.isLt
      rw [UInt8.toNat_ofNat', UInt8.toNat_ofNat']
      omega
    rw [value_le16, Nat.add_assoc, hmem, hmem]
    simp only [Body.bytes, be16Bytes, le16Bytes, List.cons_append, List.nil_append, Nat.reduceAdd,
      memoryOf_cons_zero, memoryOf_cons_succ]
    rw [hid, BitVec.ofNat_toNat, BitVec.setWidth_eq]
  · have hdata := lookMany_memoryOf before (Body.icmp type code check id rest).bytes [] after
    rw [List.append_nil, ← hbytes] at hdata
    exact hdata

end

/-! ## What the program makes of it -/

section

variable (c : Config) (e : PacketEnv) (l : Loop) {mem : Memory} {turns length version : Nat}
    {loc : Located} {saddr daddr : Addr}

theorem handleBuffer_packet (h : loc.Behind mem turns length version saddr daddr)
    (hupper : isUpperLayer loc.protocol) {f : Flow}
    (hflow : (readFlow c.abi length version loc).value mem = some f) {p : Packet}
    (hlimit : limited c p l = overLimit c l f)
    (hhandle : limited c p l = false → handle c e turns mem f
      ((protocolCall c.abi length loc).value mem) l = some (Table.step c l (.packet e p))) :
    handleBuffer c e turns ⟨length, mem⟩ l = some (Table.step c l (.packet e p)) := by
  rw [handleBuffer_located h hupper c e l, hflow]
  cases hover : overLimit c l f with
  | true =>
    simp only [hover, if_true]
    exact congrArg some (if_pos (hlimit.trans hover)).symm
  | false =>
    simp only [hover, Bool.false_eq_true, if_false]
    exact hhandle (hlimit.trans hover)

end

namespace ClientPacket

variable (p : ClientPacket) (c : Config) (e : PacketEnv) (turns : Nat) (after : Memory) (l : Loop)

theorem length_bytes : p.bytes.length = p.head.length + p.body.bytes.length := by
  rw [bytes, List.length_append, Head.length_bytes]

theorem upper : isUpperLayer (p.body.protocol p.version) := by
  cases p.body with
  | udp => exact .inr (.inl rfl)
  | tcp => exact .inl rfl
  | icmp =>
    simp only [Body.protocol]
    split
    · exact .inr (.inr (.inl rfl))
    · exact .inr (.inr (.inr rfl))

theorem behind (h : p.bytes.length < 2 ^ 16) :
    (Located.mk (p.body.protocol p.version) p.head.length).Behind (memoryOf p.bytes after) turns
      p.bytes.length p.version
      p.saddr p.daddr := by
  rw [length_bytes] at h ⊢
  exact p.head.located p.upper p.saddr p.daddr p.body.bytes after turns h

/-- The header in front of the body. -/
def front : Bytes := p.head.bytes (p.body.protocol p.version) p.body.bytes.length p.saddr p.daddr

theorem length_front : p.front.length = p.head.length := p.head.length_bytes ..

theorem size_behind (abi : Abi) (h : p.bytes.length < 2 ^ 16) {k n : Nat}
    (hbody : p.body.bytes.length = k + n) :
    sizeSub abi p.bytes.length (p.head.length + k) = n := by
  have hlen := p.length_bytes
  rw [sizeSub_of_le abi (by omega) h]
  omega

theorem udp_handled {source dest check : BitVec 16} {data : Bytes}
    (hbody : p.body = .udp source dest check data) (h : p.bytes.length < 2 ^ 16) :
    handleBuffer c e turns ⟨p.bytes.length, memoryOf p.bytes after⟩ l =
      some (Table.step c l (.packet e p.packet)) := by
  have hbehind := p.behind turns after h
  have hbytes : p.bytes = p.front ++ (Body.udp source dest check data).bytes := by rw [← hbody]; rfl
  have hfields := udp_fields after source dest check data (congrArg (memoryOf · after) hbytes)
  have hprotocol : p.body.protocol p.version = ipprotoUdp := by rw [hbody]; rfl
  have hsize : p.body.bytes.length = sizeofUdphdr + data.length := by
    rw [hbody]
    simp [Body.bytes, be16Bytes, sizeofUdphdr]
    omega
  rw [length_front] at hfields
  obtain ⟨hsource, hdest, hdata⟩ := hfields
  rw [hprotocol] at hbehind
  have hroom : sizeSub c.abi p.bytes.length p.head.length = sizeofUdphdr + data.length :=
    p.size_behind c.abi h (k := 0) (hsize.trans (Nat.zero_add _).symm)
  have hdatalen : sizeSub c.abi p.bytes.length (p.head.length + sizeofUdphdr) = data.length :=
    p.size_behind c.abi h hsize
  have hflow := readFlow_udp c.abi hbehind rfl (hroom ▸ Nat.le_add_right _ _)
  have hicmp : ¬ isIcmp ipprotoUdp := by decide
  have hpacket : p.packet = .udp ⟨p.version, p.stored p.saddr, source.toNat, p.stored p.daddr,
      dest.toNat, data⟩ := by
    rw [packet, hbody]
  refine handleBuffer_packet c e l hbehind (.inr (.inl rfl)) hflow ?_ fun hlimit => ?_
  · rw [hpacket]
    exact limited_udp c l rfl (by simp [stored, hsource, hdest])
  · simp only [protocolCall, if_neg hicmp, if_true, value_pure, udpCall, handle, udpOf, hsource,
      hdest, hdatalen, hdata]
    rw [hpacket] at hlimit ⊢
    exact congrArg some (if_neg (Bool.eq_false_iff.mp hlimit)).symm

/-- The segment of a client in the table's terms. -/
def segment (t : TcpBody) : TcpPacket :=
  ⟨p.version, p.stored p.saddr, t.source.toNat, p.stored p.daddr, t.dest.toNat, (p.options t).mss,
    (p.options t).ws, t.segment⟩

theorem tcpOf_segment {t : TcpBody} {mem : Memory} {f : Flow} {data datalen : Nat} (o : Options)
    (hf : f.version = p.version ∧ f.saddr = p.stored p.saddr ∧ f.daddr = p.stored p.daddr)
    (hdata : (lookMany data datalen).value mem = t.segment.data.bytes) :
    tcpOf mem f t.fields data datalen o = { p.segment t with mss := o.mss, ws := o.ws } := by
  have hpayload : Tcp.Payload.of t.segment.data.bytes = t.segment.data := by
    have hlt := t.segment.data.len_lt
    have htake : t.segment.data.bytes.take 65535 = t.segment.data.bytes :=
      List.take_of_length_le (by omega)
    simp only [Tcp.Payload.of, htake]
  have hsegment : tcpSegment mem t.fields data datalen = t.segment := by
    simp [tcpSegment, TcpBody.fields, hdata, hpayload]
  simp only [tcpOf, hf, hsegment, segment]
  rfl

/-- Whether the options are decoded or not, the segment is handled as it was sent. -/
theorem synOptions_segment (abi : Abi) {t : TcpBody} {mem : Memory} {payload : Nat}
    {q : Options → TcpPacket} (hq : ∀ o, q o = { p.segment t with mss := o.mss, ws := o.ws })
    (hoptions : (decodeOptions p.version turns (castU8 (((t.fields.doff : Nat) - 5) * 4))
      (payload + sizeofTcphdr)).value mem = some (p.options t)) :
    ((synOptions turns mem l p.version payload t.fields q).map fun o =>
      Table.handleTcp abi e (q o) l) =
      some (Table.handleTcp abi e (p.segment t) l) := by
  have hfind : l.table.find? (matchesTcp (q ⟨getDefaultMss p.version, 0⟩)) =
      l.table.find? (matchesTcp (p.segment t)) := by
    rw [hq]
    rfl
  simp only [synOptions, hfind]
  split
  · rw [hoptions, Option.map_some, hq]
    rfl
  · rename_i hplain
    rw [Option.map_some, hq, handleTcp_options abi e (p.segment t) _ _ l hplain]

theorem tcp_handled {t : TcpBody} (hbody : p.body = .tcp t) (h : p.bytes.length < 2 ^ 16)
    (hturns : 40 ≤ turns) :
    handleBuffer c e turns ⟨p.bytes.length, memoryOf p.bytes after⟩ l =
      some (Table.step c l (.packet e p.packet)) := by
  have hbehind := p.behind turns after h
  have hbytes : p.bytes = p.front ++ (Body.tcp t).bytes := by rw [← hbody]; rfl
  have hread := segment_read after t p.version turns hturns (congrArg (memoryOf · after) hbytes)
  have hprotocol : p.body.protocol p.version = ipprotoTcp := by rw [hbody]; rfl
  have hsize : p.body.bytes.length = sizeofTcphdr + 4 * t.count + t.segment.data.bytes.length := by
    rw [hbody, Body.bytes, List.length_append, List.length_append, length_header, t.length_eq]
  have hcount := t.count_le
  have hdatalt := t.segment.data.len_lt
  rw [length_front] at hread
  obtain ⟨hfields, hoptions, hdata⟩ := hread
  rw [hprotocol] at hbehind
  have hroom : sizeSub c.abi p.bytes.length p.head.length =
      sizeofTcphdr + (4 * t.count + t.segment.data.bytes.length) :=
    p.size_behind c.abi h (k := 0) (by omega)
  have hoptlen : castU8 (((t.fields.doff : Nat) - 5) * 4) = 4 * t.count := by
    simp only [TcpBody.fields, castU8]
    omega
  have hdatalen :
    castU16 (p.bytes.length - (p.head.length + sizeofTcphdr + 4 * t.count : Nat) : Int) =
      t.segment.data.bytes.length := by
    rw [p.length_bytes, hsize]
    simp only [castU16]
    omega
  have hicmp : ¬ isIcmp ipprotoTcp := by decide
  have hudp : ipprotoTcp ≠ ipprotoUdp := by decide
  have hpacket : p.packet = .tcp (p.segment t) := by
    rw [packet, hbody]
    rfl
  obtain ⟨f, hflow, htcp, hf, hsyn⟩ :
    ∃ f, (readFlow c.abi p.bytes.length p.version ⟨ipprotoTcp, p.head.length⟩).value
      (memoryOf p.bytes after) = some f ∧ f.protocol = ipprotoTcp ∧
        (f.version = p.version ∧ f.saddr = p.stored p.saddr ∧ f.daddr = p.stored p.daddr) ∧
        f.syn = t.segment.syn :=
    ⟨_, readFlow_tcp c.abi hbehind rfl (hroom ▸ Nat.le_add_right _ _), rfl, ⟨rfl, rfl, rfl⟩,
      congrArg TcpHeader.syn hfields⟩
  refine handleBuffer_packet c e l hbehind (.inl rfl) hflow ?_ fun hlimit => ?_
  · rw [hpacket]
    exact limited_tcp c l htcp hsyn.symm
  · have hcall : (protocolCall c.abi p.bytes.length ⟨ipprotoTcp, p.head.length⟩).value
      (memoryOf p.bytes after) =
        .tcp t.fields p.head.length (p.head.length + sizeofTcphdr + 4 * t.count)
          t.segment.data.bytes.length := by
      simp only [protocolCall, if_neg hicmp, if_neg hudp, tcpCall, value_bind, value_pure, hfields,
        hoptlen, hdatalen]
    have hhandled := p.synOptions_segment e turns l c.abi (fun o => p.tcpOf_segment o hf hdata)
      (hoptlen ▸ hoptions)
    rw [hcall]
    simp only [handle, hf.1]
    rw [hhandled]
    rw [hpacket] at hlimit ⊢
    exact congrArg some (if_neg (Bool.eq_false_iff.mp hlimit)).symm

/-- The pseudo-header that `handle_icmp` builds is that of the packet. -/
theorem sentPseudo_packet (h : p.version = 6) (hicmp : p.body.protocol p.version = ipprotoIcmpv6) :
    Icmp.sentPseudo (memoryOf p.bytes after) = p.pseudo := by
  have hs := p.saddr.length_eq
  have hd := p.daddr.length_eq
  cases hhead : p.head with
  | v4 => simp [version, Head.version, hhead] at h
  | v6 traffic label hopLimit =>
    obtain ⟨hsaddr, hdaddr⟩ :=
      addresses_stand ([UInt8.ofNat (96 + traffic), label.1, label.2.1, label.2.2] ++
      be16Bytes p.body.bytes.length ++ [ipprotoIcmpv6, hopLimit]) p.saddr.ip6 p.daddr.ip6
        p.body.bytes after (k := 8) rfl hs hd
    have hbytes : p.bytes = [UInt8.ofNat (96 + traffic), label.1, label.2.1, label.2.2] ++
      be16Bytes p.body.bytes.length ++
        [ipprotoIcmpv6, hopLimit] ++ (p.saddr.ip6 ++ (p.daddr.ip6 ++ p.body.bytes)) := by
      simp only [bytes, hhead, hicmp, Head.bytes, List.append_assoc]
    rw [← hbytes] at hsaddr hdaddr
    simp only [Icmp.sentPseudo, pseudo, hsaddr, hdaddr]
    rw [hbytes]
    simp [be16Bytes]

theorem icmp_handled {type code : UInt8} {check id : BitVec 16} {rest : Bytes}
    (hbody : p.body = .icmp type code check id rest) (h : p.bytes.length < 2 ^ 16) :
    handleBuffer c e turns ⟨p.bytes.length, memoryOf p.bytes after⟩ l =
      some (if p.body.bytes.length < sizeofIcmp then (l, [])
        else Table.step c l (.packet e p.packet)) := by
  have hbehind := p.behind turns after h
  have hbytes : p.bytes = p.front ++ (Body.icmp type code check id rest).bytes := by
    rw [← hbody]; rfl
  have hfields := icmp_fields after type code check id rest (congrArg (memoryOf · after) hbytes)
  rw [length_front, ← hbody] at hfields
  obtain ⟨htype, hid, hmessage⟩ := hfields
  have hicmp : isIcmp (p.body.protocol p.version) := by
    rw [hbody, Body.protocol]
    split
    · exact .inl rfl
    · exact .inr rfl
  have hroom : sizeSub c.abi p.bytes.length p.head.length = p.body.bytes.length :=
    p.size_behind c.abi h (k := 0) (Nat.zero_add _).symm
  have hflow := readFlow_icmp c.abi hbehind hicmp
  rw [hroom] at hflow
  by_cases hshort : p.body.bytes.length < sizeofIcmp
  · rw [if_pos hshort] at hflow
    rw [handleBuffer_located hbehind p.upper c e l, hflow, if_pos hshort]
  · rw [if_neg hshort] at hflow
    rw [if_neg hshort]
    have hpacket : p.packet = .icmp ⟨p.version, p.stored p.saddr, p.stored p.daddr, type, id,
        Icmp.modifyId p.version p.pseudo p.body.bytes⟩ := by
      rw [packet, hbody]
    have hsent : Icmp.sentMessage (memoryOf p.bytes after) p.head.length p.body.bytes.length =
        Icmp.modifyId p.version p.pseudo p.body.bytes := by
      rw [Icmp.sentMessage, hbehind.first, hmessage]
      by_cases h6 : p.version = 6
      · rw [p.sentPseudo_packet after h6 (by rw [hbody, h6]; rfl)]
      · simp only [Icmp.modifyId, if_neg h6]
    refine handleBuffer_packet c e l hbehind p.upper hflow ?_ fun hlimit => ?_
    · rw [hpacket]
      exact limited_icmp c l hicmp _
    · simp only [protocolCall, if_pos hicmp, icmpCall, value_bind, value_pure, value_look, hroom,
        handle, icmpOf, htype, hid, hsent]
      rw [hpacket] at hlimit ⊢
      exact congrArg some (if_neg (Bool.eq_false_iff.mp hlimit)).symm

theorem handled (h : p.bytes.length < 2 ^ 16) (hturns : 40 ≤ turns) :
    handleBuffer c e turns ⟨p.bytes.length, memoryOf p.bytes after⟩ l =
      some (if p.tooShort then (l, []) else Table.step c l (.packet e p.packet)) := by
  cases hbody : p.body with
  | udp source dest check data =>
    rw [p.udp_handled c e turns after l hbody h]
    simp [tooShort, hbody]
  | tcp t =>
    rw [p.tcp_handled c e turns after l hbody h hturns]
    simp [tooShort, hbody]
  | icmp type code check id rest =>
    rw [p.icmp_handled c e turns after l hbody h]
    simp [tooShort, hbody]

end ClientPacket

/-! ## Runs -/

/-- A packet of the client, with the memory behind the buffer, or another input. -/
inductive ClientInput where
  | packet (e : PacketEnv) (p : ClientPacket) (after : Memory)
  | loop (i : Input)

namespace ClientInput

def raw : ClientInput → RawInput
  | packet e p after => .tun e ⟨p.bytes.length, memoryOf p.bytes after⟩
  | loop i => .loop i

def input? : ClientInput → Option Input
  | packet e p _ => if p.tooShort then none else some (.packet e p.packet)
  | loop i => some i

def size : ClientInput → Nat
  | packet _ p _ => p.bytes.length
  | loop _ => 0

end ClientInput

/-- The run on the bytes that a client sends is the run of the table on its packets: none is
lost, and each has the fields that the client gave it. -/
theorem client_run (c : Config) (turns : Nat) (l : Loop) (is : List ClientInput)
    (hturns : 40 ≤ turns) (hsize : ∀ i ∈ is, i.size < 2 ^ 16) :
    rawRun c turns l (is.map ClientInput.raw) =
      some (run (Table.step c) l (is.filterMap ClientInput.input?)) := by
  induction is generalizing l with
  | nil => rfl
  | cons i is ih =>
    have hrest := fun r : Loop => ih r fun j hj => hsize j (List.mem_cons_of_mem i hj)
    have hfit := hsize i (List.mem_cons_self ..)
    rw [List.map_cons, rawRun]
    cases i with
    | loop j =>
      have hinput : (ClientInput.loop j :: is).filterMap ClientInput.input? =
        j :: is.filterMap ClientInput.input? := rfl
      rw [hinput, run_cons]
      simp only [ClientInput.raw, rawStep, Option.bind_some, hrest, Option.map_some]
    | packet e p after =>
      simp only [ClientInput.raw, rawStep, p.handled c e turns after l hfit hturns,
        Option.bind_some, hrest, Option.map_some]
      cases hshort : p.tooShort with
      | true => simp [ClientInput.input?, hshort]
      | false =>
        have hinput : (ClientInput.packet e p after :: is).filterMap ClientInput.input? =
            .packet e p.packet :: is.filterMap ClientInput.input? := by
          simp [ClientInput.input?, hshort]
        simp only [Bool.false_eq_true, if_false, hinput, run_cons]

/-- A SYN with two options over version 4, a datagram over version 6, a ping that is too
short, and a check pass. -/
def clientInputs : List ClientInput :=
  [.packet (plainEnv 3)
    ⟨.v4 0 7 true 64 0 ⟨[], 0, rfl, by decide⟩, .ofIp4 10 1 10 1, .ofIp4 1 2 3 4,
      .tcp ⟨40000, 443, ⟨1, 0, false, false, false, false, true, false, 65535, .of []⟩, 0, 0, 0,
        [.mss 1400, .scale 7], some [], 2, rfl, by decide⟩⟩ fun _ => 0,
    .packet (plainEnv 4) ⟨.v6 0 (0, 0, 0) 64, ⟨List.replicate 16 1, rfl⟩,
      ⟨List.replicate 16 2, rfl⟩, .udp 5000 53 0 [1, 2, 3]⟩
      fun _ => 0xFF,
    .packet (plainEnv 5) ⟨.v4 0 8 false 64 0 ⟨[], 0, rfl, by decide⟩, .ofIp4 10 1 10 1,
      .ofIp4 1 2 3 4, .icmp 8 0 0 77 [0, 1]⟩
      fun _ => 0, .loop (.check fun _ => answerAt 1)]

theorem client_run_four : rawRun (plainConfig 10 true) 40 empty (clientInputs.map ClientInput.raw) =
    some (run (Table.step (plainConfig 10 true)) empty
      (clientInputs.filterMap ClientInput.input?)) :=
  client_run (plainConfig 10 true) 40 empty clientInputs (by decide) (by decide)

end PdaNetClient.Ip
