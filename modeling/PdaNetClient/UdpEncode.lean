import PdaNetClient.IpEncode

/-!
# The bytes of `write_udp`

The packet that `write_udp` hands to tun, and what comes out when it is read back the way
`handle_ip` and `handle_udp` read a packet. The checksum is stored as it is computed: where
the sum is `0xFFFF` the field is zero, which says that there is no checksum.
-/
namespace PdaNetClient.Ip

open Reading OnesComplement Table Datagram
open Http (Memory memoryOf)
open Tcp (Addr)

set_option autoImplicit false

/-! ## Sessions -/

/-- What a session is created with and keeps. -/
structure Stands (s : UdpSession) : Prop where
  version : s.version = 4 ∨ s.version = 6
  source : s.source < 2 ^ 16
  dest : s.dest < 2 ^ 16
  mss : s.mss = if s.version = 4 then udp4Maxmsg else udp6Maxmsg

theorem newUdpSession_stands (now : Int) (socket : Nat) {p : UdpPacket}
    (hversion : p.version = 4 ∨ p.version = 6) (hsource : p.source < 2 ^ 16)
    (hdest : p.dest < 2 ^ 16) : Stands (newUdpSession now socket p) :=
  ⟨hversion, hsource, hdest, rfl⟩

theorem Stands.of_leaves {s : UdpSession} {r : UdpSession × List Datagram.Out} (h : Stands s)
    (hleaves : UdpLeaves s r) (hmss : r.1.mss = s.mss) : Stands r.1 := by
  have hfixed := hleaves.fixed
  simp only [UdpSession.fixed, Prod.mk.injEq] at hfixed
  obtain ⟨hversion, hsource, -, hdest⟩ := hfixed
  exact ⟨hversion ▸ h.version, hsource ▸ h.source,
    hdest ▸ h.dest, by rw [hmss, hversion]; exact h.mss⟩

theorem checkUdpSocket_stands (e : SocketEnv) {s : UdpSession} (h : Stands s) :
    Stands (checkUdpSocket e s).1 := by
  apply h.of_leaves (checkUdpSocket_leaves e s).1
  unfold checkUdpSocket
  split
  · rfl
  · split
    · split
      · rfl
      · split
        · rfl
        · simp only
          split <;> rfl
    · rfl

theorem forwardUdp_stands (e : UdpEnv) (p : UdpPacket) {s : UdpSession} (h : Stands s) :
    Stands (forwardUdp e p s).1 := by
  apply h.of_leaves (forwardUdp_leaves e p s).1
  have hsend : (sendUdp e p s).1.mss = s.mss := by
    unfold sendUdp
    simp only
    split
    · rfl
    · split <;> rfl
  unfold forwardUdp checkDhcp
  split
  · split
    · rename_i hcheck
      split at hcheck
      · split at hcheck <;> injection hcheck with hcheck <;> rw [← hcheck]
      · cases hcheck
    · exact hsend
  · exact hsend

theorem checkUdpSession_stands (e : CheckEnv) {s : UdpSession} (h : Stands s) :
    Stands (checkUdpSession e s).1 := by
  refine checkUdpSession_cases e s ?_ ?_ ?_ ?_
  · exact fun _ => h
  · exact fun _ _ => h
  · exact fun _ _ => ⟨h.version, h.source, h.dest, h.mss⟩
  · rintro t del rfl -
    exact ⟨h.version, h.source, h.dest, h.mss⟩

/-! ## Every session of the table -/

def EntryStands (x : Entry) : Prop := ∀ s, x.session = .udp s → Stands s

/-- What a visit leaves stands. -/
def LeavesStanding (r : Option Entry × List Table.Out) : Prop := ∀ y, r.1 = some y → EntryStands y

/-- The numbers of a UDP packet are as wide as its fields. -/
def FieldsFit : Table.Input → Prop
  | .packet _ (.udp p) => (p.version = 4 ∨ p.version = 6) ∧ p.source < 2 ^ 16 ∧ p.dest < 2 ^ 16
  | _ => True

section

variable {x : Entry} {l : Loop}

theorem leavesStanding_stay (h : EntryStands x) (outs : List Table.Out) :
    LeavesStanding (some x, outs) := by
  rintro y ⟨⟩
  exact h

theorem leavesStanding_gone (outs : List Table.Out) : LeavesStanding (none, outs) :=
  fun y hy => by cases hy

theorem leavesStanding_udp {r : UdpSession × List Datagram.Out} (h : Stands r.1) :
    LeavesStanding (udpVisit x r) := by
  rintro y ⟨⟩ s ⟨⟩
  exact h

theorem leavesStanding_icmp (r : IcmpSession × List Datagram.Out) :
    LeavesStanding (icmpVisit x r) := by
  rintro y ⟨⟩ s hs
  cases hs

theorem leavesStanding_tcp (r : Tcp.Session × List Tcp.Out) : LeavesStanding (tcpVisit x r) := by
  rintro y ⟨⟩ s hs
  cases hs

theorem LeavesStanding.deleteIf {r : Option Entry × List Table.Out} (h : LeavesStanding r)
    (del : Bool) :
    LeavesStanding (deleteIf del r) := by
  cases del with
  | false => exact h
  | true => exact leavesStanding_gone _

theorem LeavesStanding.only {name : Nat} {f : Sweep.Visit Entry Table.Out} (hx : EntryStands x)
    (h : LeavesStanding (f x)) : LeavesStanding (Sweep.only Entry.name name f x) := by
  refine Sweep.only_cases Entry.name name f x ?_ ?_
  · exact leavesStanding_stay hx _
  · exact fun _ => h

variable (hx : EntryStands x)

include hx

theorem monitorVisit_stands (abi : Abi) (e : Nat → Tcp.MonitorEnv) :
    LeavesStanding (monitorVisit abi e x) := by
  unfold monitorVisit
  split
  · exact leavesStanding_tcp _
  · exact leavesStanding_stay hx _

theorem checkVisit_stands (sessions maxsessions : Nat) (e : Nat → CheckAnswer) :
    LeavesStanding (checkVisit sessions maxsessions e x) := by
  unfold checkVisit
  simp only
  split
  · exact (leavesStanding_icmp _).deleteIf _
  · rename_i s hs
    exact (leavesStanding_udp (checkUdpSession_stands _ (hx s hs))).deleteIf _
  · exact (leavesStanding_tcp _).deleteIf _

theorem allowedVisit_stands (e : Nat → Bool) : LeavesStanding (allowedVisit e x) := by
  unfold allowedVisit
  split
  · exact leavesStanding_icmp _
  · rename_i s hs
    have hstands := hx s hs
    split
    · exact leavesStanding_udp ⟨hstands.version, hstands.source, hstands.dest, hstands.mss⟩
    · exact leavesStanding_gone _
    · exact leavesStanding_stay hx _
  · split
    · exact leavesStanding_tcp _
    · exact leavesStanding_stay hx _

theorem socketVisit_stands (abi : Abi) (e : SocketEnv) (t : Tcp.SocketEnv) :
    LeavesStanding (socketVisit abi e t x) := by
  unfold socketVisit
  split
  · exact leavesStanding_stay hx _
  · split
    · exact leavesStanding_icmp _
    · rename_i s hs
      split
      · exact leavesStanding_udp (checkUdpSocket_stands e (hx s hs))
      · exact leavesStanding_stay hx _
    · exact leavesStanding_tcp _

theorem packetVisit_stands (abi : Abi) (e : PacketEnv) (p : Packet) :
    LeavesStanding (packetVisit abi e p x) := by
  refine packetVisit_cases abi e p x ?_ ?_ ?_ ?_
  · exact leavesStanding_stay hx _
  · exact fun q s _ _ => leavesStanding_icmp _
  · exact fun q s _ hs _ => leavesStanding_udp (forwardUdp_stands _ q (hx s hs))
  · exact fun q s _ _ => leavesStanding_tcp _

omit hx in
theorem pass_stands {f : Sweep.Visit Entry Table.Out} (hf : ∀ x ∈ l.table, LeavesStanding (f x)) :
    ∀ y ∈ (l.pass f).1.table, EntryStands y := by
  intro y hy
  obtain ⟨x, hx, hxy⟩ := Sweep.mem_sweep.mp hy
  exact hf x hx y hxy

omit hx in
theorem handleIp_stands (h : ∀ x ∈ l.table, EntryStands x) (c : Config) (e : PacketEnv) (p : Packet)
    (hp : FieldsFit (.packet e p)) : ∀ y ∈ (Table.handleIp c e p l).1.table, EntryStands y := by
  refine handleIp_cases c e p l ?_ ?_ ?_ ?_
  · exact fun _ => h
  · exact fun _ _ _ _ => h
  · exact fun x _ _ => pass_stands fun y hy => (packetVisit_stands (h y hy) c.abi e p).only (h y hy)
  · intro _ _ _
    cases e.sock with
    | failed | leaked _ => exact h
    | ok fd =>
      have hnew : EntryStands ⟨l.next, (created e l.next p fd).1⟩ := by
        cases p with
        | icmp p | tcp p => exact fun s hs => by cases hs
        | udp p =>
          rintro s ⟨⟩
          exact forwardUdp_stands _ p (newUdpSession_stands e.now fd hp.1 hp.2.1 hp.2.2)
      exact List.forall_mem_cons.mpr ⟨hnew, h⟩

omit hx in
theorem step_stands (c : Config) (h : ∀ x ∈ l.table, EntryStands x) (i : Table.Input)
    (hi : FieldsFit i) :
    ∀ y ∈ (Table.step c l i).1.table, EntryStands y := by
  cases i with
  | monitor e => exact pass_stands fun x hx => monitorVisit_stands (h x hx) c.abi e
  | check e => exact pass_stands fun x hx => checkVisit_stands (h x hx) _ _ e
  | packet e p => exact handleIp_stands h c e p hi
  | socket name e t =>
    exact pass_stands fun x hx => (socketVisit_stands (h x hx) c.abi e t).only (h x hx)
  | allowed e => exact pass_stands fun x hx => allowedVisit_stands (h x hx) e
  | clear => exact pass_stands fun x _ => leavesStanding_gone _

end

/-- Every UDP session of a run stands. -/
theorem run_stands (c : Config) (is : List Table.Input)
    (h : Runs.Along (Table.step c) (fun _ i => FieldsFit i) empty is) :
    ∀ x ∈ (Runs.run (Table.step c) empty is).1.table, EntryStands x :=
  Runs.run_invariant (Table.step c) (fun _ i => FieldsFit i)
    (fun l _ => ∀ x ∈ l.table, EntryStands x)
    (fun _ _ i hl hi => step_stands c hl i hi) is empty (fun x hx => by cases hx) h

/-! ## The packet -/

def udpHeader (s : UdpSession) (datalen check : Nat) : Bytes :=
  be16Bytes s.dest ++ be16Bytes s.source ++ be16Bytes (sizeofUdphdr + datalen) ++ le16Bytes check

def udpPseudo (s : UdpSession) (datalen : Nat) : Bytes :=
  senderPseudoOf ipprotoUdp s.version (addrKey s.version s.daddr) (addrKey s.version s.saddr)
    (sizeofUdphdr + datalen)

def udpChecksum (s : UdpSession) (data : Bytes) : BitVec 16 :=
  calcChecksum
    (calcChecksum (calcChecksum 0 (udpPseudo s data.length)) (udpHeader s data.length 0)) data

/-- The buffer behind the IP header. -/
def datagramOf (s : UdpSession) (data : Bytes) : Bytes :=
  udpHeader s data.length (~~~ udpChecksum s data).toNat ++ data

def udpIpHeader (s : UdpSession) (datalen : Nat) : Bytes :=
  if s.version = 4 then
    let len := sizeofIphdr + (sizeofUdphdr + datalen)
    let check := ~~~ calcChecksum 0 (ipv4Header ipprotoUdp len s.daddr.ip4 s.saddr.ip4 0)
    ipv4Header ipprotoUdp len s.daddr.ip4 s.saddr.ip4 check.toNat
  else ipv6Header ipprotoUdp (sizeofUdphdr + datalen) s.daddr.ip6 s.saddr.ip6

/-- What `write_udp` hands to `write`. -/
def writeUdp (s : UdpSession) (data : Bytes) : Bytes :=
  udpIpHeader s data.length ++ datagramOf s data

/-! ## Reading back -/

structure UdpDecoded where
  version : Nat
  saddr : Addr
  daddr : Addr
  source : Nat
  dest : Nat
  len : Nat
  data : Bytes
  deriving DecidableEq, Repr

/-- A UDP packet, read with the offsets of `handle_ip` and `handle_udp`. -/
def readUdp (abi : Abi) (fuel length : Nat) : Read (Option UdpDecoded) := do
  let first ← u8 0
  let version := first / 16
  match ← locate version fuel length with
  | .pass p =>
    if p.protocol = ipprotoUdp then
      let addrs ← readAddrs version
      let source ← be16 p.payload
      let dest ← be16 (p.payload + 2)
      let len ← be16 (p.payload + 4)
      match udpCall abi length p.payload with
      | .udp _ data datalen =>
        let bytes ← lookMany data datalen
        return some ⟨version, addrs.1, addrs.2, source, dest, len, bytes⟩
      | _ => return none
    else return none
  | _ => return none

/-- `d` is what the session wrote, and the buffer is a correct packet with it, the zero checksum
apart. -/
structure UdpReads (s : UdpSession) (data bytes : Bytes) (after : Memory)
    (d : UdpDecoded) : Prop where
  version : d.version = s.version
  saddr : addrKey s.version d.saddr = addrKey s.version s.daddr
  daddr : addrKey s.version d.daddr = addrKey s.version s.saddr
  source : d.source = s.dest
  dest : d.dest = s.source
  data : d.data = data
  room : bytes.length ≤ 65535
  length : promisedLength s.version (memoryOf bytes after) = bytes.length
  udpLength : ipHeaderLength s.version + d.len = bytes.length
  ipSum : s.version = 4 → Verifies (bytes.take sizeofIphdr)
  udpSum : Verifies (receiverPseudoOf ipprotoUdp d.version (addrKey d.version d.saddr)
    (addrKey d.version d.daddr) d.len ++
    bytes.drop (ipHeaderLength d.version))

/-- The field with the checksum is not zero. -/
def Checksummed (version : Nat) (bytes : Bytes) : Prop :=
  (bytes.drop (ipHeaderLength version + 6)).take 2 ≠ [0, 0]

/-- What is asked of a UDP packet to the client. -/
structure UdpAgrees (s : UdpSession) (data bytes : Bytes) (after : Memory)
    (d : UdpDecoded) : Prop where
  reads : UdpReads s data bytes after d
  checksummed : Checksummed s.version bytes

/-- The words that the checksum is about, in network order. -/
def wordSum (s : UdpSession) (data : Bytes) : Nat :=
  sumBe (addrKey s.version s.saddr) + sumBe (addrKey s.version s.daddr) + s.source + s.dest + 17 +
    2 * (sizeofUdphdr + data.length) + sumBe data

/-! ## The lengths -/

section

variable (s : UdpSession) (data : Bytes)

theorem length_udpHeader (datalen check : Nat) :
    (udpHeader s datalen check).length = sizeofUdphdr :=
  rfl

theorem length_datagramOf : (datagramOf s data).length = sizeofUdphdr + data.length := by
  rw [datagramOf, List.length_append, length_udpHeader]

theorem length_udpIpHeader (datalen : Nat) :
    (udpIpHeader s datalen).length = ipHeaderLength s.version := by
  have hs4 := length_ip4 s.saddr
  have hd4 := length_ip4 s.daddr
  have hs6 := s.saddr.length_eq
  have hd6 := s.daddr.length_eq
  by_cases h : s.version = 4
  · simp [udpIpHeader, ipHeaderLength, h, ipv4Header, be16Bytes, le16Bytes, hs4, hd4, sizeofIphdr]
  · simp [udpIpHeader, ipHeaderLength, h, ipv6Header, be16Bytes, hs6, hd6, sizeofIp6Hdr]

theorem length_writeUdp :
    (writeUdp s data).length = ipHeaderLength s.version + (sizeofUdphdr + data.length) := by
  rw [writeUdp, List.length_append, length_udpIpHeader, length_datagramOf]

variable {s} {data}

/-- The largest message fills an IPv4 packet; for IPv6 the header is counted although it need not
be. -/
theorem writeUdp_room (h : Stands s) (hdata : data.length ≤ s.mss) :
    (writeUdp s data).length ≤ 65535 := by
  have hlength := length_writeUdp s data
  have hmss := h.mss
  rcases h.version with hv | hv
  · simp only [hv, if_true, udp4Maxmsg, ipHeaderLength, sizeofIphdr, sizeofUdphdr] at hlength hmss
    omega
  · simp only [hv, show ¬ (6 : Nat) = 4 by decide, if_false, udp6Maxmsg, ipHeaderLength,
      sizeofIp6Hdr, sizeofUdphdr] at hlength hmss
    omega

end

/-! ## The packet read back -/

/-- The datagram behind an IP header, whatever that is. -/
theorem datagramOf_fields {s : UdpSession} {data before : Bytes} {payload : Nat} (after : Memory)
    (h : Stands s) (hpayload : before.length = payload)
    (hfit : sizeofUdphdr + data.length < 2 ^ 16) :
    let mem := memoryOf (before ++ datagramOf s data) after
    (be16 payload).value mem = s.dest ∧ (be16 (payload + 2)).value mem = s.source ∧
      (be16 (payload + 4)).value mem = sizeofUdphdr + data.length ∧
      (lookMany (payload + sizeofUdphdr) data.length).value mem = data := by
  intro mem
  have hmem : ∀ i, mem (payload + i) = memoryOf (datagramOf s data) after i := by
    intro i
    rw [← hpayload]
    exact memoryOf_append before (datagramOf s data) after i
  have hmem0 : mem payload = memoryOf (datagramOf s data) after 0 := hmem 0
  refine ⟨?_, ?_, ?_, ?_⟩
  · rw [value_be16, hmem0, hmem]
    simp only [datagramOf, udpHeader, be16Bytes, List.cons_append, memoryOf_cons_zero,
      memoryOf_cons_succ]
    exact be16_bytes h.dest
  · rw [value_be16, Nat.add_assoc, hmem, hmem]
    simp only [datagramOf, udpHeader, be16Bytes, List.cons_append, List.nil_append, Nat.reduceAdd,
      memoryOf_cons_zero, memoryOf_cons_succ]
    exact be16_bytes h.source
  · rw [value_be16, Nat.add_assoc, hmem, hmem]
    simp only [datagramOf, udpHeader, be16Bytes, List.cons_append, List.nil_append, Nat.reduceAdd,
      memoryOf_cons_zero, memoryOf_cons_succ]
    exact be16_bytes hfit
  · have hdata := lookMany_memoryOf
      (before ++ udpHeader s data.length (~~~ udpChecksum s data).toNat) data [] after
    rw [List.length_append, length_udpHeader, hpayload, List.append_nil, List.append_assoc] at hdata
    exact hdata

theorem readUdp_of {abi : Abi} {version fuel length payload source dest len datalen : Nat}
    {bytes : Bytes} {mem : Memory} {saddr daddr : Addr} (hfirst : (mem 0).toNat / 16 = version)
    (hlocate : (locate version fuel length).value mem = .pass ⟨ipprotoUdp, payload⟩)
    (haddrs : (readAddrs version).value mem = (saddr, daddr))
    (hsource : (be16 payload).value mem = source) (hdest : (be16 (payload + 2)).value mem = dest)
    (hlen : (be16 (payload + 4)).value mem = len)
    (hdatalen : sizeSub abi length (payload + sizeofUdphdr) = datalen)
    (hdata : (lookMany (payload + sizeofUdphdr) datalen).value mem = bytes) :
    (readUdp abi fuel length).value mem =
      some ⟨version, saddr, daddr, source, dest, len, bytes⟩ := by
  unfold readUdp
  simp only [value_bind, value_u8, hfirst, hlocate, if_true, haddrs, hsource, hdest, hlen, udpCall,
    hdatalen, hdata]
  rfl

theorem sizeSub_add (abi : Abi) {payload datalen : Nat} (h : datalen < 2 ^ 32) :
    sizeSub abi (payload + datalen) payload = datalen := by
  have hmod : ((datalen : Int) % (2 ^ abi.sizeBits : Nat)).toNat = datalen := by
    cases abi <;> simp only [Abi.sizeBits] <;> omega
  unfold sizeSub
  rwa [show ((payload + datalen : Nat) : Int) - payload = datalen by omega]

section

variable {s : UdpSession} {data : Bytes}

theorem writeUdp_ip4 (data : Bytes) (h : s.version = 4) : ∃ check, writeUdp s data =
    ipv4Header ipprotoUdp (sizeofIphdr + (sizeofUdphdr + data.length)) s.daddr.ip4 s.saddr.ip4
      check ++ datagramOf s data := by
  simp only [writeUdp, udpIpHeader, h, if_true]
  exact ⟨_, rfl⟩

theorem writeUdp_ip6 (data : Bytes) (h : s.version = 6) : writeUdp s data =
    ipv6Header ipprotoUdp (sizeofUdphdr + data.length) s.daddr.ip6 s.saddr.ip6 ++
      datagramOf s data := by
  simp only [writeUdp, udpIpHeader, h, show ¬ (6 : Nat) = 4 by decide, if_false]

/-- What a reader of the packet decodes. -/
def udpDecoded (s : UdpSession) (data : Bytes) : UdpDecoded where
  version := s.version
  saddr := addrOf (addrKey s.version s.daddr)
  daddr := addrOf (addrKey s.version s.saddr)
  source := s.dest
  dest := s.source
  len := sizeofUdphdr + data.length
  data := data

theorem writeUdp_read (abi : Abi) (fuel : Nat) (after : Memory) (h : Stands s)
    (hroom : (writeUdp s data).length ≤ 65535) :
    (readUdp abi fuel (writeUdp s data).length).value (memoryOf (writeUdp s data) after) =
      some (udpDecoded s data) ∧
      promisedLength s.version (memoryOf (writeUdp s data) after) = (writeUdp s data).length := by
  have hlength := length_writeUdp s data
  have hfit : sizeofUdphdr + data.length < 2 ^ 16 := by omega
  have hdatagram := length_datagramOf s data
  have hheader := length_udpIpHeader s data.length
  obtain ⟨hsource, hdest, hlen, hdata⟩ := datagramOf_fields after h hheader hfit
  have hbytes : writeUdp s data = udpIpHeader s data.length ++ datagramOf s data := rfl
  rw [← hbytes] at hsource hdest hlen hdata
  have hdatalen : sizeSub abi (writeUdp s data).length
      (ipHeaderLength s.version + sizeofUdphdr) = data.length := by
    rw [hlength, ← Nat.add_assoc]
    exact sizeSub_add abi (by omega)
  rcases h.version with hv | hv
  · have h4 : ipHeaderLength s.version = sizeofIphdr := if_pos hv
    rw [h4] at hlength hsource hdest hlen hdata hdatalen
    obtain ⟨check, hip⟩ := writeUdp_ip4 data hv
    have hlocated := locate_ipv4Header ipprotoUdp (datagramOf s data) check fuel after
      (length_ip4 s.daddr) (length_ip4 s.saddr)
      (by rw [hdatagram]) (by omega)
    rw [← hip, ← hlength] at hlocated
    obtain ⟨hfirst, htotal, hlocate, haddrs⟩ := hlocated
    constructor
    · rw [readUdp_of hfirst hlocate haddrs hsource hdest hlen hdatalen hdata]
      simp only [udpDecoded, hv, addrKey, if_true]
    · simpa only [promisedLength, hv, if_true] using htotal
  · have hnot : ¬ (6 : Nat) = 4 := by decide
    have h6 : ipHeaderLength s.version = sizeofIp6Hdr := by
      rw [hv]
      rfl
    rw [h6] at hlength hsource hdest hlen hdata hdatalen
    have hlocated := locate_ipv6Header ipprotoUdp (.inr (.inl rfl)) (datagramOf s data) fuel after
      s.daddr.length_eq s.saddr.length_eq hfit
    rw [← writeUdp_ip6 data hv, hdatagram, ← hlength] at hlocated
    obtain ⟨hfirst, hplen, hlocate, haddrs⟩ := hlocated
    constructor
    · rw [readUdp_of hfirst hlocate haddrs hsource hdest hlen hdatalen hdata]
      simp only [udpDecoded, hv, addrKey, hnot, if_false]
    · simp only [promisedLength, hv, hnot, if_false, hplen]
      omega

/-! ## The checksums -/

/-- The message around its checksum field. -/
theorem datagram_eq (s : UdpSession) (data : Bytes) (check : Nat) :
    udpHeader s data.length check ++ data =
      (be16Bytes s.dest ++ be16Bytes s.source ++ be16Bytes (sizeofUdphdr + data.length)) ++
        (le16Bytes check ++ data) := by
  simp only [udpHeader, List.append_assoc]

/-- What the checksum is taken over. -/
def udpSummed (s : UdpSession) (data : Bytes) : Bytes :=
  udpPseudo s data.length ++ (udpHeader s data.length 0 ++ data)

theorem length_udpPseudo (s : UdpSession) (datalen : Nat) :
    (udpPseudo s datalen).length ≤ 40 ∧ (udpPseudo s datalen).length % 2 = 0 := by
  have hs := length_addrKey s.version s.saddr
  have hd := length_addrKey s.version s.daddr
  unfold udpPseudo senderPseudoOf
  by_cases h : s.version = 4
  · rw [if_pos h] at hs hd ⊢
    simp [be16Bytes, hs, hd]
  · rw [if_neg h] at hs hd ⊢
    simp [be16Bytes, hs, hd]

theorem udpChecksum_toNat (hdata : data.length < 2 ^ 16) :
    (udpChecksum s data).toNat = carry (sumLe (udpSummed s data)) := by
  obtain ⟨hpseudo, heven⟩ := length_udpPseudo s data.length
  have hheader : (udpHeader s data.length 0).length = 8 := length_udpHeader s data.length 0
  have hpieces := foldl_zero_toNat [udpPseudo s data.length, udpHeader s data.length 0, data]
    (by simp [hheader, heven]) (by simp [hheader]; omega)
  rw [udpSummed, udpChecksum]
  simpa using hpieces

theorem wordSum_eq (h : Stands s) (hfit : sizeofUdphdr + data.length < 2 ^ 16) :
    sumBe (udpSummed s data) = wordSum s data := by
  have hproto : (ipprotoUdp : UInt8).toNat = 17 := rfl
  have heven := (length_udpPseudo s data.length).2
  have hheader : sumBe (udpHeader s data.length 0) =
      s.dest + s.source + (sizeofUdphdr + data.length) := by
    have hzero : sumBe (le16Bytes 0) = 0 := rfl
    rw [udpHeader, sumBe_append _ (by simp [be16Bytes]), sumBe_append _ (by simp [be16Bytes]),
      sumBe_append _ (by simp [be16Bytes]), sumBe_be16Bytes h.dest, sumBe_be16Bytes h.source,
      sumBe_be16Bytes hfit, hzero, Nat.add_zero]
  rw [udpSummed, sumBe_append _ heven, sumBe_append _ (by simp [length_udpHeader, sizeofUdphdr]),
    hheader, udpPseudo, senderPseudoOf_sumBe _ _ _ (addrKey_even _ _) (addrKey_even _ _),
    sumBe_be16Bytes hfit, hproto, wordSum]
  omega

/-- The checksum is all ones for the messages whose words add up to a multiple of `0xFFFF`. -/
theorem udpChecksum_top (h : Stands s) (hfit : sizeofUdphdr + data.length < 2 ^ 16) :
    (udpChecksum s data).toNat = 0xFFFF ↔ wordSum s data % 65535 = 0 := by
  have hmod := sumBe_mod (udpSummed s data)
  have hzero := sumBe_eq_zero (udpSummed s data)
  have hsum := wordSum_eq h hfit
  have hpos : 17 ≤ wordSum s data := by
    unfold wordSum
    omega
  rw [udpChecksum_toNat (by omega), carry_eq_top]
  omega

/-- A receiver finds the sum right, also where the field is zero. -/
theorem datagramOf_verifies (hfit : sizeofUdphdr + data.length < 2 ^ 16) :
    Verifies (receiverPseudoOf ipprotoUdp s.version (addrKey s.version s.daddr)
      (addrKey s.version s.saddr)
      (sizeofUdphdr + data.length) ++ datagramOf s data) := by
  have hreceiver := receiverPseudoOf_sum ipprotoUdp s.version _ (addrKey_even s.version s.daddr)
    (addrKey_even s.version s.saddr) hfit
  have hsender := senderPseudoOf_sum ipprotoUdp s.version (sizeofUdphdr + data.length)
    (addrKey_even s.version s.daddr) (addrKey_even s.version s.saddr)
  have hproto : (ipprotoUdp : UInt8).toNat = 17 := rfl
  have heven := (length_udpPseudo s data.length).2
  rw [datagramOf, datagram_eq]
  apply (field_verifies_iff (sumLe (udpPseudo s data.length))
    (receiverPseudoOf_even _ _ _ (addrKey_even _ _) (addrKey_even _ _))
    (by simp [be16Bytes]) (by omega) ?_).mpr
  · rw [hreceiver, udpPseudo, hsender]
  · rw [← datagram_eq, not_toNat, udpChecksum_toNat (by omega), udpSummed, sumLe_append _ heven]

theorem udpIpHeader_verifies (datalen : Nat) (h : s.version = 4) :
    Verifies (udpIpHeader s datalen) := by
  simp only [udpIpHeader, h, if_true]
  exact ipv4Header_verifies ipprotoUdp _ (length_ip4 s.daddr) (length_ip4 s.saddr)

theorem le16Bytes_zero {n : Nat} (h : n < 2 ^ 16) : le16Bytes n = [0, 0] ↔ n = 0 := by
  simp only [le16Bytes, List.cons.injEq, ← UInt8.toNat_inj, UInt8.toNat_ofNat', and_true]
  constructor
  · rintro ⟨hlow, hhigh⟩
    simp at hlow hhigh
    omega
  · rintro rfl
    exact ⟨rfl, rfl⟩

/-- The field is zero exactly where the sum is all ones. -/
theorem checksummed_iff (h : Stands s) (hfit : sizeofUdphdr + data.length < 2 ^ 16) :
    Checksummed s.version (writeUdp s data) ↔ wordSum s data % 65535 ≠ 0 := by
  have hlt := (udpChecksum s data).isLt
  have hnot := not_toNat (udpChecksum s data)
  have hfront : (udpIpHeader s data.length ++
      (be16Bytes s.dest ++ be16Bytes s.source ++ be16Bytes (sizeofUdphdr + data.length))).length =
      ipHeaderLength s.version + 6 := by
    rw [List.length_append, length_udpIpHeader]
    rfl
  have hfield : ((writeUdp s data).drop (ipHeaderLength s.version + 6)).take 2 =
      le16Bytes (~~~ udpChecksum s data).toNat := by
    rw [writeUdp, datagramOf, datagram_eq, ← List.append_assoc, List.drop_left' hfront]
    exact List.take_left' rfl
  have htop := udpChecksum_top h hfit
  rw [Checksummed, hfield, Ne, le16Bytes_zero (by omega)]
  omega

/-! ## The whole packet -/

/-- A receiver reads what was written, with right lengths and sums. -/
theorem writeUdp_reads (abi : Abi) (fuel : Nat) (after : Memory) (h : Stands s)
    (hdata : data.length ≤ s.mss) :
    (readUdp abi fuel (writeUdp s data).length).value (memoryOf (writeUdp s data) after) =
      some (udpDecoded s data) ∧
      UdpReads s data (writeUdp s data) after (udpDecoded s data) := by
  have hroom := writeUdp_room h hdata
  have hlength := length_writeUdp s data
  have hheader := length_udpIpHeader s data.length
  have hfit : sizeofUdphdr + data.length < 2 ^ 16 := by omega
  obtain ⟨hread, hpromised⟩ := writeUdp_read abi fuel after h hroom
  refine ⟨hread, ?_⟩
  constructor
  case version | source | dest | data => rfl
  case saddr => exact addrKey_addrOf s.version s.daddr
  case daddr => exact addrKey_addrOf s.version s.saddr
  case room => exact hroom
  case length => exact hpromised
  case udpLength => exact hlength.symm
  case ipSum =>
    intro hv
    have htake : (writeUdp s data).take sizeofIphdr = udpIpHeader s data.length :=
      List.take_left' (hheader.trans (if_pos hv))
    rw [htake]
    exact udpIpHeader_verifies data.length hv
  case udpSum =>
    have hdrop : (writeUdp s data).drop (ipHeaderLength s.version) = datagramOf s data :=
      List.drop_left' hheader
    show Verifies (receiverPseudoOf ipprotoUdp s.version
      (addrKey s.version (addrOf (addrKey s.version s.daddr)))
      (addrKey s.version (addrOf (addrKey s.version s.saddr))) (sizeofUdphdr + data.length) ++
      (writeUdp s data).drop (ipHeaderLength s.version))
    rw [addrKey_addrOf, addrKey_addrOf, hdrop]
    exact datagramOf_verifies hfit

end

/-- The packet is what is asked for if and only if its words do not add up to a multiple of
`0xFFFF`. -/
theorem write_udp_agrees (abi : Abi) (s : UdpSession) (data : Bytes) (fuel : Nat) (after : Memory)
    (h : Stands s) (hdata : data.length ≤ s.mss) :
    (∃ d, (readUdp abi fuel (writeUdp s data).length).value
      (memoryOf (writeUdp s data) after) = some d ∧
        UdpAgrees s data (writeUdp s data) after d) ↔
      wordSum s data % 65535 ≠ 0 := by
  obtain ⟨hread, hreads⟩ := writeUdp_reads abi fuel after h hdata
  have hroom := writeUdp_room h hdata
  have hlength := length_writeUdp s data
  rw [← checksummed_iff h (by omega)]
  constructor
  · intro ⟨d, _, hagrees⟩
    exact hagrees.checksummed
  · intro hchecksummed
    exact ⟨udpDecoded s data, hread, hreads, hchecksummed⟩

/-- A session with a name server. -/
def resolver : UdpSession := newUdpSession 0 5 ⟨4, .ofIp4 10 1 10 1, 40000, .ofIp4 8 8 8 8, 53, []⟩

theorem resolver_stands : Stands resolver :=
  newUdpSession_stands 0 5 (.inl rfl) (by decide) (by decide)

theorem write_udp_agrees_odd : ∃ d,
    (readUdp .arm64V8a 0 (writeUdp resolver [1, 2, 3]).length).value
      (memoryOf (writeUdp resolver [1, 2, 3]) fun _ => 0) = some d ∧
      UdpAgrees resolver [1, 2, 3] (writeUdp resolver [1, 2, 3]) (fun _ => 0) d :=
  (write_udp_agrees .arm64V8a resolver [1, 2, 3] 0 (fun _ => 0) resolver_stands (by decide)).mpr
    (by decide +kernel)

/-- A payload that makes the words add up to `0xFFFF`: the packet goes out without a checksum. -/
theorem write_udp_unchecked : [0x3F, 0x53].length ≤ resolver.mss ∧ ¬ ∃ d,
    (readUdp .arm64V8a 0 (writeUdp resolver [0x3F, 0x53]).length).value
      (memoryOf (writeUdp resolver [0x3F, 0x53]) fun _ => 0) =
        some d ∧
      UdpAgrees resolver [0x3F, 0x53] (writeUdp resolver [0x3F, 0x53]) (fun _ => 0) d := by
  refine ⟨by decide, ?_⟩
  intro ⟨d, _, hagrees⟩
  exact (checksummed_iff resolver_stands (by decide)).mp hagrees.checksummed (by decide +kernel)

end PdaNetClient.Ip
