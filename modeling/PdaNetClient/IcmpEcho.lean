import PdaNetClient.SessionKeys
import PdaNetClient.TcpEncode

/-!
# Echo requests and replies

`check_icmp_socket` down to the bytes that `write_icmp` hands to tun, and the session
table with a history: the echo requests that were sent, each with the session through whose
socket it went. A session is found by its addresses and keeps the identifier of the request
that created it.
-/
namespace PdaNetClient.Icmp

open Runs Sweep Datagram Table
open Tcp (Addr)
open Ip (be16Bytes le16Bytes ipv4Header ipv6Header sizeofIphdr sizeofIp6Hdr ipprotoIcmp
    ipprotoIcmpv6 ipHeaderLength length_ip4)

set_option autoImplicit false

/-! ## The packet that is written -/

/-- The stores to `icmp_cksum` and `icmp_id`; what they reach behind the message is not written. -/
def storeHeader (check id : Nat) (data : Bytes) : Bytes :=
  (data.take 2 ++ le16Bytes check ++ le16Bytes id ++ data.drop 6).take data.length

/-- `struct ip6_hdr_pseudo`; the length is that of the message less an IPv6 header, in the
byte order of the machine. -/
def replyPseudo (s : IcmpSession) (bytes : Nat) : Bytes :=
  let len := (((bytes : Int) - sizeofIp6Hdr) % 2 ^ 32).toNat
  s.daddr.ip6 ++ s.saddr.ip6 ++ le16Bytes len ++ le16Bytes (len / 65536) ++ [0, 0, 0, ipprotoIcmpv6]

/-- "restore original ID" -/
def restoreId (s : IcmpSession) (data : Bytes) : Bytes :=
  let csum := if s.version = 6 then calcChecksum 0 (replyPseudo s data.length) else 0
  let check := ~~~ calcChecksum csum (storeHeader 0 s.id.toNat data)
  storeHeader check.toNat s.id.toNat data

/-- What `write_icmp` hands to `write`. -/
def writeIcmp (s : IcmpSession) (data : Bytes) : Bytes :=
  if s.version = 4 then
    let len := sizeofIphdr + data.length
    let check := ~~~ calcChecksum 0 (ipv4Header ipprotoIcmp len s.daddr.ip4 s.saddr.ip4 0)
    ipv4Header ipprotoIcmp len s.daddr.ip4 s.saddr.ip4 check.toNat ++ data
  else ipv6Header ipprotoIcmpv6 data.length s.daddr.ip6 s.saddr.ip6 ++ data

/-- `check_icmp_socket`, with the packet that it writes. -/
def replyPacket (e : SocketEnv) (s : IcmpSession) : Option Bytes :=
  if e.ev.err then none
  else if e.ev.inn then
    if readFails e.recv then none
    else match e.recv with
      | .fail _ => none
      | .ok data => some (writeIcmp s (restoreId s data))
  else none

/-- A packet is handed to tun exactly where `checkIcmpSocket` writes. -/
theorem checkIcmpSocket_writes (e : SocketEnv) (s : IcmpSession) :
    (checkIcmpSocket e s).2 = (replyPacket e s).toList.map fun _ => .tun e.tun := by
  unfold checkIcmpSocket replyPacket
  cases e.ev.err with
  | true => rfl
  | false =>
    cases e.ev.inn with
    | false => rfl
    | true =>
      cases readFails e.recv with
      | true => rfl
      | false => cases e.recv <;> rfl

/-! ## Requests and replies -/

/-- The table, and the echo requests sent so far, with the names of their sessions. -/
structure Pings where
  loop : Loop
  sent : List (Nat × IcmpPacket)
  deriving DecidableEq, Repr

def start : Pings := ⟨empty, []⟩

/-- The request that an output sends. -/
def requestOf (p : IcmpPacket) : Table.Out → Option (Nat × IcmpPacket)
  | .datagram name (.sendto _ _) => some (name, p)
  | _ => none

/-- The echo request that a step sends, when `sendto` takes it. -/
def sentBy (outs : List Table.Out) : Input → List (Nat × IcmpPacket)
  | .packet e (.icmp p) => if e.send = .all then outs.filterMap (requestOf p) else []
  | _ => []

/-- The packet that an event makes an ICMP session write to tun. -/
def writtenBy (e : SocketEnv) (x : Entry) : Option Bytes :=
  match x.session with
  | .icmp s => if 0 ≤ s.socket ∧ e.tun then replyPacket e s else none
  | _ => none

def written (l : Loop) : Input → List Bytes
  | .socket name e _ => (l.table.filter (·.name = name)).filterMap (writtenBy e)
  | _ => []

/-- The session table with the requests as a history and the replies as outputs. -/
def pings (c : Config) : Machine Pings Input Bytes := fun s i =>
  (⟨(step c s.loop i).1, s.sent ++ sentBy (step c s.loop i).2 i⟩, written s.loop i)

/-- A message that answers the request, as far as it matters: the kernel has put its own
identifier into the request. -/
structure IsReply (p : IcmpPacket) (data : Bytes) : Prop where
  header : 8 ≤ data.length
  seq : (data.drop 6).take 2 = (p.message.drop 6).take 2

def sourceOf (version : Nat) (w : Bytes) : Bytes :=
  if version = 4 then (w.drop 12).take 4 else (w.drop 8).take 16

def destOf (version : Nat) (w : Bytes) : Bytes :=
  if version = 4 then (w.drop 16).take 4 else (w.drop 24).take 16

def idOf (version : Nat) (w : Bytes) : Bytes := (w.drop (ipHeaderLength version + 4)).take 2

/-- The packet goes back from where the request went, and carries its identifier. -/
structure Restores (p : IcmpPacket) (w : Bytes) : Prop where
  version : w.head? = some (if p.version = 4 then 0x45 else 0x60)
  source : sourceOf p.version w = addrKey p.version p.daddr
  dest : destOf p.version w = addrKey p.version p.saddr
  id : idOf p.version w = le16Bytes p.id.toNat

/-- Whatever reply the socket of a session gets next to a request that was sent on it, what
is written to tun restores that request. -/
def Restoring (c : Config) (s : Pings) : Prop :=
  ∀ name p, (name, p) ∈ s.sent → ∀ e t data, e.recv = .ok data → IsReply p data →
    ∀ w ∈ (pings c s (.socket name e t)).2, Restores p w

/-- A request that is sent through a session that is there carries the session's identifier. -/
def SameId (c : Config) (s : Pings) : Input → Prop
  | .packet e (.icmp p) =>
    e.send = .all → 8 ≤ p.message.length → p.type = icmpEcho → limited c (.icmp p) s.loop = false →
      ∀ x ∈ s.loop.table.find? (matchesIcmp p), ∀ r, x.session = .icmp r → r.id = p.id
  | _ => True

/-! ## The fields of a written packet -/

theorem slice_append {before part after : Bytes} {i n : Nat} (hi : before.length = i)
    (hn : part.length = n) :
    ((before ++ (part ++ after)).drop i).take n = part := by
  rw [List.drop_left' hi, List.take_left' hn]

theorem le16Bytes_inj {a b : BitVec 16} : le16Bytes a.toNat = le16Bytes b.toNat ↔ a = b := by
  constructor
  · intro h
    have ha := a.isLt
    have hb := b.isLt
    simp only [le16Bytes, List.cons.injEq, ← UInt8.toNat_inj, UInt8.toNat_ofNat', and_true] at h
    apply BitVec.eq_of_toNat_eq
    omega
  · rintro rfl
    rfl

theorem storeHeader_eq (check id : Nat) {data : Bytes} (h : 8 ≤ data.length) :
    storeHeader check id data = data.take 2 ++ le16Bytes check ++
      (le16Bytes id ++ data.drop 6) := by
  unfold storeHeader
  rw [List.append_assoc, List.take_of_length_le]
  simp [le16Bytes]
  omega

/-- The identifier behind a header of an IP packet. -/
theorem slice_restoreId (s : IcmpSession) {header data : Bytes} {n : Nat} (h : 8 ≤ data.length)
    (hn : header.length = n) :
    ((header ++ restoreId s data).drop (n + 4)).take 2 = le16Bytes s.id.toNat := by
  unfold restoreId
  simp only
  rw [storeHeader_eq _ _ h, ← List.append_assoc]
  apply slice_append
  · simp [le16Bytes]
    omega
  · rfl

section

variable {s : IcmpSession} {p : IcmpPacket}

theorem writeIcmp_version (data : Bytes) :
    (writeIcmp s data).head? = some (if s.version = 4 then 0x45 else 0x60) := by
  unfold writeIcmp
  split <;> rfl

theorem writeIcmp_addrs (data : Bytes) :
    sourceOf s.version (writeIcmp s data) = addrKey s.version s.daddr ∧
    destOf s.version (writeIcmp s data) = addrKey s.version s.saddr := by
  unfold writeIcmp sourceOf destOf addrKey
  split
  · simp only [ipv4Header]
    constructor
    · rw [List.append_assoc, List.append_assoc]
      exact slice_append rfl (length_ip4 _)
    · rw [List.append_assoc]
      exact slice_append (by simp [be16Bytes, le16Bytes, length_ip4]) (length_ip4 _)
  · simp only [ipv6Header]
    constructor
    · rw [List.append_assoc, List.append_assoc]
      exact slice_append rfl s.daddr.length_eq
    · rw [List.append_assoc]
      exact slice_append (by simp [be16Bytes, s.daddr.length_eq]) s.saddr.length_eq

theorem writeIcmp_id {data : Bytes} (h : 8 ≤ data.length) :
    idOf s.version (writeIcmp s (restoreId s data)) = le16Bytes s.id.toNat := by
  unfold writeIcmp idOf ipHeaderLength
  split
  · exact slice_restoreId s h (by simp [ipv4Header, be16Bytes, le16Bytes, length_ip4, sizeofIphdr])
  · exact slice_restoreId s h (by simp [ipv6Header, be16Bytes, Addr.length_eq, sizeofIp6Hdr])

/-- Between the same addresses, the identifier decides. -/
theorem restores_iff {data : Bytes} (h : 8 ≤ data.length) (hversion : s.version = p.version)
    (hsaddr : addrKey p.version s.saddr = addrKey p.version p.saddr)
    (hdaddr : addrKey p.version s.daddr = addrKey p.version p.daddr) :
    Restores p (writeIcmp s (restoreId s data)) ↔ s.id = p.id := by
  have hid := writeIcmp_id (s := s) h
  obtain ⟨hsource, hdest⟩ := writeIcmp_addrs (s := s) (restoreId s data)
  rw [hversion] at hid hsource hdest
  constructor
  · intro hr
    exact le16Bytes_inj.mp (hid.symm.trans hr.id)
  · intro he
    refine ⟨?_, hsource.trans hdaddr, hdest.trans hsaddr, by rw [hid, he]⟩
    rw [writeIcmp_version, hversion]

end

/-! ## What a session keeps -/

/-- What replies are made of, and where they come from. -/
structure Origin where
  version : Nat
  saddr : Addr
  daddr : Addr
  id : BitVec 16
  socket : Int
  deriving DecidableEq, Repr

def originOf (s : IcmpSession) : Origin := ⟨s.version, s.saddr, s.daddr, s.id, s.socket⟩

def origin : Session → Option Origin
  | .icmp s => some (originOf s)
  | _ => none

/-- A visit that leaves the origin of an entry, or deletes it. -/
def KeepsOrigin (x : Entry) (r : Option Entry × List Table.Out) : Prop :=
  ∀ y, r.1 = some y → y.name = x.name ∧ origin y.session = origin x.session

section

variable {x : Entry}

theorem keepsOrigin_stay (outs : List Table.Out) : KeepsOrigin x (some x, outs) := by
  rintro y ⟨⟩
  exact ⟨rfl, rfl⟩

theorem keepsOrigin_gone (outs : List Table.Out) : KeepsOrigin x (none, outs) :=
  fun y hy => by cases hy

theorem keepsOrigin_tcp {s : Tcp.Session} (hs : x.session = .tcp s)
    (r : Tcp.Session × List Tcp.Out) :
    KeepsOrigin x (tcpVisit x r) := by
  rintro y ⟨⟩
  exact ⟨rfl, by rw [hs]; rfl⟩

theorem keepsOrigin_udp {s : UdpSession} (hs : x.session = .udp s)
    (r : UdpSession × List Datagram.Out) :
    KeepsOrigin x (udpVisit x r) := by
  rintro y ⟨⟩
  exact ⟨rfl, by rw [hs]; rfl⟩

theorem keepsOrigin_icmp {s : IcmpSession} (hs : x.session = .icmp s)
    {r : IcmpSession × List Datagram.Out} (hr : originOf r.1 = originOf s) :
    KeepsOrigin x (icmpVisit x r) := by
  rintro y ⟨⟩
  exact ⟨rfl, by rw [hs]; exact congrArg some hr⟩

theorem KeepsOrigin.deleteIf {r : Option Entry × List Table.Out} (h : KeepsOrigin x r)
    (del : Bool) :
    KeepsOrigin x (deleteIf del r) := by
  cases del with
  | false => exact h
  | true => exact keepsOrigin_gone _

theorem checkIcmpSocket_origin (e : SocketEnv) (s : IcmpSession) :
    originOf (checkIcmpSocket e s).1 = originOf s := by
  unfold checkIcmpSocket
  split
  · rfl
  · split
    · split
      · rfl
      · split <;> rfl
    · rfl

theorem monitorVisit_origin (abi : Abi) (e : Nat → Tcp.MonitorEnv) (x : Entry) :
    KeepsOrigin x (monitorVisit abi e x) := by
  unfold monitorVisit
  split
  · rename_i hs
    exact keepsOrigin_tcp hs _
  · exact keepsOrigin_stay _

theorem packetVisit_origin (abi : Abi) (e : PacketEnv) (p : Packet) (x : Entry) :
    KeepsOrigin x (packetVisit abi e p x) := by
  refine packetVisit_cases abi e p x ?_ ?_ ?_ ?_
  · exact keepsOrigin_stay _
  · exact fun _ _ _ hs => keepsOrigin_icmp hs rfl
  · exact fun _ _ _ hs _ => keepsOrigin_udp hs _
  · exact fun _ _ _ hs => keepsOrigin_tcp hs _

/-- A session whose socket is closed here is deleted in the same pass. -/
theorem checkVisit_origin (sessions maxsessions : Nat) (e : Nat → CheckAnswer) (x : Entry) :
    KeepsOrigin x (checkVisit sessions maxsessions e x) := by
  unfold checkVisit
  simp only
  split
  · rename_i hs
    unfold checkIcmpSession
    split
    · exact keepsOrigin_gone _
    · exact keepsOrigin_icmp hs rfl
  · rename_i hs
    exact (keepsOrigin_udp hs _).deleteIf _
  · rename_i hs
    exact (keepsOrigin_tcp hs _).deleteIf _

theorem allowedVisit_origin (e : Nat → Bool) (x : Entry) : KeepsOrigin x (allowedVisit e x) := by
  unfold allowedVisit
  split
  · rename_i hs
    exact keepsOrigin_icmp hs rfl
  · rename_i hs
    split
    · exact keepsOrigin_udp hs _
    · exact keepsOrigin_gone _
    · exact keepsOrigin_stay _
  · rename_i hs
    split
    · exact keepsOrigin_tcp hs _
    · exact keepsOrigin_stay _

theorem socketVisit_origin (abi : Abi) (e : SocketEnv) (t : Tcp.SocketEnv) (x : Entry) :
    KeepsOrigin x (socketVisit abi e t x) := by
  unfold socketVisit
  split
  · exact keepsOrigin_stay _
  · split
    · rename_i s hs
      exact keepsOrigin_icmp hs (checkIcmpSocket_origin e s)
    · rename_i hs
      split
      · exact keepsOrigin_udp hs _
      · exact keepsOrigin_stay _
    · rename_i hs
      exact keepsOrigin_tcp hs _

end

/-! ## One step -/

/-- The origin of a session created for a request. -/
def newOrigin (fd : Nat) (p : IcmpPacket) : Origin := ⟨p.version, p.saddr, p.daddr, p.id, fd⟩

/-- The entries behind a step: those before it, and the one of a packet that creates it. -/
def Stems (l : Loop) (i : Input) (r : Loop × List Table.Out) : Prop :=
  ∀ y ∈ r.1.table, (∃ x ∈ l.table, y.name = x.name ∧ origin y.session = origin x.session) ∨
    y.name = l.next ∧ ∀ o, origin y.session = some o →
    ∃ e p fd, i = .packet e (.icmp p) ∧ o = newOrigin fd p

section

variable {l : Loop}

theorem stems_stay (i : Input) (opened : List Int) (sessions : Nat) (outs : List Table.Out) :
    Stems l i ({ l with opened := opened, sessions := sessions }, outs) :=
  fun y hy => .inl ⟨y, hy, rfl, rfl⟩

theorem stems_pass (i : Input) {f : Visit Entry Table.Out}
    (hf : ∀ x ∈ l.table, KeepsOrigin x (f x)) :
    Stems l i (l.pass f) := by
  intro y hy
  obtain ⟨x, hx, hxy⟩ := mem_sweep.mp hy
  exact .inl ⟨x, hx, hf x hx y hxy⟩

theorem KeepsOrigin.only {x : Entry} {name : Nat} {f : Visit Entry Table.Out}
    (h : KeepsOrigin x (f x)) :
    KeepsOrigin x (only Entry.name name f x) := by
  refine only_cases Entry.name name f x ?_ ?_
  · exact keepsOrigin_stay _
  · exact fun _ => h

theorem stems_create (i : Input) (r : OpenResult) {s : Nat → Session × List Table.Out}
    (hs : ∀ fd o, origin (s fd).1 = some o → ∃ e p fd', i = .packet e (.icmp p) ∧
      o = newOrigin fd' p) :
    Stems l i (l.create r s) := by
  intro y hy
  cases r with
  | failed => exact .inl ⟨y, hy, rfl, rfl⟩
  | leaked fd => exact .inl ⟨y, hy, rfl, rfl⟩
  | ok fd =>
    cases List.mem_cons.mp hy with
    | inl hnew =>
      subst hnew
      exact .inr ⟨rfl, hs fd⟩
    | inr hold => exact .inl ⟨y, hold, rfl, rfl⟩

theorem handleIp_stems (c : Config) (e : PacketEnv) (p : Packet) :
    Stems l (.packet e p) (handleIp c e p l) := by
  refine handleIp_cases c e p l ?_ ?_ ?_ ?_
  · exact fun _ => stems_stay _ _ _ _
  · exact fun _ _ _ _ => stems_stay _ _ _ _
  · exact fun _ _ _ => stems_pass _ fun y _ => (packetVisit_origin c.abi e p y).only
  · intro _ _ _
    apply stems_create
    intro fd o ho
    cases p with
    | icmp p =>
      cases ho
      exact ⟨e, p, fd, rfl, rfl⟩
    | udp p => cases ho
    | tcp p => cases ho

theorem step_stems (c : Config) (l : Loop) (i : Input) : Stems l i (step c l i) := by
  cases i with
  | monitor e => exact stems_pass (l := { l with sessions := count l.table }) _ fun x _ =>
      monitorVisit_origin c.abi e x
  | check e => exact stems_pass _ fun x _ => checkVisit_origin _ _ e x
  | packet e p => exact handleIp_stems c e p
  | socket name e t => exact stems_pass _ fun x _ => (socketVisit_origin c.abi e t x).only
  | allowed e => exact stems_pass _ fun x _ => allowedVisit_origin e x
  | clear => exact stems_pass _ fun x _ => keepsOrigin_gone _

theorem create_next (l : Loop) (r : OpenResult) (s : Nat → Session × List Table.Out) :
    l.next ≤ (l.create r s).1.next := by
  cases r with
  | failed => exact le_rfl
  | leaked fd => exact le_rfl
  | ok fd => exact Nat.le_succ _

/-- Names are given in order. -/
theorem step_next (c : Config) (l : Loop) (i : Input) : l.next ≤ (step c l i).1.next := by
  cases i with
  | packet e p =>
    show l.next ≤ (handleIp c e p l).1.next
    refine handleIp_cases c e p l ?_ ?_ ?_ ?_
    · exact fun _ => le_rfl
    · exact fun _ _ _ _ => le_rfl
    · exact fun _ _ _ => le_rfl
    · exact fun _ _ _ => create_next _ _ _
  | _ => exact le_rfl

/-- The request goes through the socket of the session with this name. -/
inductive Via (e : PacketEnv) (p : IcmpPacket) (l : Loop) : Nat → Prop where
  | found (x : Entry) (r : IcmpSession) (hfind : l.table.find? (matchesIcmp p) = some x)
      (hr : x.session = .icmp r) :
      Via e p l x.name
  | created (fd : Nat) (hfind : l.table.find? (matchesIcmp p) = none) (hfd : e.sock = .ok fd) :
      Via e p l l.next

/-- The request gets as far as the search. -/
def Searches (c : Config) (p : IcmpPacket) (l : Loop) : Prop :=
  limited c (.icmp p) l = false ∧ p.type = icmpEcho

theorem icmp_of_matches {p : IcmpPacket} {x : Entry} (h : matchesIcmp p x = true) :
    ∃ r, x.session = .icmp r := by
  unfold matchesIcmp at h
  split at h
  · rename_i r hr
    exact ⟨r, hr⟩
  · cases h

theorem handleIcmp_requests (h : Named l) (e : PacketEnv) (p q : IcmpPacket) (name : Nat)
    (hecho : p.type = icmpEcho) :
    (name, q) ∈ (handleIcmp e p l).2.filterMap (requestOf p) ↔ q = p ∧ Via e p l name := by
  unfold handleIcmp
  rw [if_neg (by simp [hecho]), List.mem_filterMap]
  cases hfind : l.table.find? (matchesIcmp p) with
  | some x =>
    obtain ⟨r, hr⟩ := icmp_of_matches (List.find?_some hfind)
    have hvia : Via e p l name ↔ name = x.name := by
      constructor
      · intro hvia
        cases hvia with
        | found y r' hy hr' =>
          rw [hfind] at hy
          injection hy with hy
          rw [hy]
        | created fd hnone => simp [hfind] at hnone
      · rintro rfl
        exact .found x r hfind hr
    have hx := List.mem_of_find?_eq_some hfind
    simp only [Loop.visit, Loop.pass, mem_sweep_only_out h.unique hx, hr, icmpVisit,
      forwardIcmp, hvia]
    simp [requestOf, and_comm, eq_comm]
  | none =>
    have hvia : Via e p l name ↔ name = l.next ∧ ∃ fd, e.sock = .ok fd := by
      constructor
      · intro hvia
        cases hvia with
        | found y r' hy => simp [hfind] at hy
        | created fd _ hfd => exact ⟨rfl, fd, hfd⟩
      · rintro ⟨rfl, fd, hfd⟩
        exact .created fd hfind hfd
    rw [hvia]
    cases hsock : e.sock with
    | ok fd => simp [Loop.create, forwardIcmp, requestOf, and_comm, eq_comm]
    | leaked fd => simp [Loop.create, requestOf]
    | failed => simp [Loop.create]

/-- The requests that a step sends. -/
theorem mem_sentBy (c : Config) (h : Named l) (i : Input) (name : Nat) (q : IcmpPacket) :
    (name, q) ∈ sentBy (step c l i).2 i ↔
      ∃ e, i = .packet e (.icmp q) ∧ e.send = .all ∧ Searches c q l ∧ Via e q l name := by
  by_cases hi : ∃ e p, i = .packet e (.icmp p)
  · obtain ⟨e, p, rfl⟩ := hi
    have hstep : step c l (.packet e (.icmp p)) =
      if limited c (.icmp p) l then (l, []) else handleIcmp e p l := rfl
    have hmem : (name, q) ∈ sentBy (step c l (.packet e (.icmp p))).2 (.packet e (.icmp p)) ↔
        q = p ∧ e.send = .all ∧ Searches c p l ∧ Via e p l name := by
      by_cases hsearch : Searches c p l
      · rw [hstep, hsearch.1]
        have hrequests := handleIcmp_requests h e p q name hsearch.2
        by_cases hall : e.send = .all
        · simpa [sentBy, hall, hsearch] using hrequests
        · simp [sentBy, hall]
      · have hnone : (step c l (.packet e (.icmp p))).2 = [] := by
          rw [hstep]
          split
          · rfl
          · rename_i hlimit
            unfold handleIcmp
            rw [if_pos fun htype => hsearch ⟨by simpa using hlimit, htype⟩]
        simp [sentBy, hnone, hsearch]
    rw [hmem]
    constructor
    · rintro ⟨rfl, hsent⟩
      exact ⟨e, rfl, hsent⟩
    · rintro ⟨e', he, hsent⟩
      injection he with he hp
      injection hp with hp
      subst he hp
      exact ⟨rfl, hsent⟩
  · have hnone : sentBy (step c l i).2 i = [] := by
      unfold sentBy
      split
      · exact absurd ⟨_, _, rfl⟩ hi
      · rfl
    rw [hnone]
    constructor
    · rintro ⟨⟩
    · rintro ⟨e, he, -⟩
      exact absurd ⟨e, q, he⟩ hi

end

/-! ## Runs -/

/-- `Q` holds of every session that is there and every request that was sent through it. -/
def Agree (Q : Origin → IcmpPacket → Prop) (s : Pings) : Prop :=
  ∀ name p, (name, p) ∈ s.sent → ∀ x ∈ s.loop.table, x.name = name →
    ∀ o, origin x.session = some o → Q o p

/-- The session is between the addresses of the request. -/
def Addressed (o : Origin) (p : IcmpPacket) : Prop :=
  o.version = p.version ∧ addrKey p.version o.saddr = addrKey p.version p.saddr ∧
    addrKey p.version o.daddr = addrKey p.version p.daddr

/-- The identifier of the session is that of the request. -/
def Identified (o : Origin) (p : IcmpPacket) : Prop := 8 ≤ p.message.length → o.id = p.id

/-- The invariant of all runs. -/
structure Traced (s : Pings) : Prop where
  named : Named s.loop
  before : ∀ name p, (name, p) ∈ s.sent → name < s.loop.next
  opened : ∀ x ∈ s.loop.table, ∀ o, origin x.session = some o → 0 ≤ o.socket
  addressed : Agree Addressed s

theorem icmp_of_origin {x : Entry} {o : Origin} (ho : origin x.session = some o) :
    ∃ r, x.session = .icmp r ∧ o = originOf r := by
  unfold origin at ho
  split at ho
  · rename_i r hr
    injection ho with ho
    exact ⟨r, hr, ho.symm⟩
  · cases ho

theorem addressed_of_matches {p : IcmpPacket} {x : Entry} {o : Origin} (h : matchesIcmp p x = true)
    (ho : origin x.session = some o) : Addressed o p := by
  obtain ⟨r, hr⟩ := icmp_of_matches h
  rw [hr] at ho
  injection ho with ho
  simp only [matchesIcmp, hr, Bool.and_eq_true, decide_eq_true_eq, sameAddr_iff] at h
  rw [← ho]
  exact h.2

section

variable {c : Config} {s : Pings} {i : Input}

/-- What holds of a request and the session that it finds, and of one and the session that
it creates, goes on to hold. -/
theorem agree_step {Q : Origin → IcmpPacket → Prop} (h : Traced s) (hQ : Agree Q s)
    (hfound : ∀ e p, i = .packet e (.icmp p) → e.send = .all → Searches c p s.loop →
      ∀ x, s.loop.table.find? (matchesIcmp p) = some x → ∀ o, origin x.session = some o → Q o p)
    (hcreated : ∀ fd p, Q (newOrigin fd p) p) : Agree Q (pings c s i).1 := by
  intro name p hsent y hy hname o ho
  have hstem := step_stems c s.loop i y hy
  rcases List.mem_append.mp hsent with hsent | hsent
  · rcases hstem with ⟨x, hx, hyx, horigin⟩ | ⟨hnext, -⟩
    · exact hQ name p hsent x hx (hyx.symm.trans hname) o (horigin.symm.trans ho)
    · have hlt := h.before name p hsent
      omega
  · obtain ⟨e, rfl, hall, hsearch, hvia⟩ := (mem_sentBy c h.named i name p).mp hsent
    rcases hstem with ⟨x, hx, hyx, horigin⟩ | ⟨hnext, hfresh⟩
    · cases hvia with
      | found x' r hfind hr =>
        have he : x = x' := h.named.eq (List.mem_of_find?_eq_some hfind) hx (hyx.symm.trans hname)
        subst he
        exact hfound e p rfl hall hsearch x hfind o (horigin.symm.trans ho)
      | created fd hfind hfd => exact absurd (hyx.symm.trans hname) (h.named.ne_next hx)
    · obtain ⟨e', p', fd, hi, rfl⟩ := hfresh o ho
      injection hi with _ hp
      injection hp with hp
      subst hp
      exact hcreated fd p

theorem traced_step (h : Traced s) (c : Config) (i : Input) : Traced (pings c s i).1 := by
  refine ⟨step_named c h.named i, ?_, ?_, ?_⟩
  · intro name p hsent
    have hnext := step_next c s.loop i
    rcases List.mem_append.mp hsent with hsent | hsent
    · exact lt_of_lt_of_le (h.before name p hsent) hnext
    · obtain ⟨e, rfl, hall, ⟨hlimit, hecho⟩, hvia⟩ := (mem_sentBy c h.named i name p).mp hsent
      cases hvia with
      | found x r hfind hr =>
        exact lt_of_lt_of_le (h.named.next x (List.mem_of_find?_eq_some hfind)) hnext
      | created fd hfind hfd =>
        show s.loop.next < (step c s.loop (.packet e (.icmp p))).1.next
        simp [step, handleIp, hlimit, handleIcmp, hecho, hfind, hfd, Loop.create, Loop.insert]
  · intro y hy o ho
    rcases step_stems c s.loop i y hy with ⟨x, hx, -, horigin⟩ | ⟨-, hfresh⟩
    · exact h.opened x hx o (horigin.symm.trans ho)
    · obtain ⟨e, p, fd, -, rfl⟩ := hfresh o ho
      exact Int.natCast_nonneg fd
  · apply agree_step h h.addressed
    · intro e p _ _ _ x hfind o ho
      exact addressed_of_matches (List.find?_some hfind) ho
    · exact fun fd p => ⟨rfl, rfl, rfl⟩

theorem replyPacket_ok {e : SocketEnv} {r : IcmpSession} {data w : Bytes}
    (hrecv : e.recv = .ok data) (h : replyPacket e r = some w) :
    w = writeIcmp r (restoreId r data) := by
  unfold replyPacket at h
  split at h
  · cases h
  · split at h
    · split at h
      · cases h
      · rw [hrecv] at h
        injection h with h
        exact h.symm
    · cases h

theorem replyPacket_datagram (r : IcmpSession) {data : Bytes} (h : 8 ≤ data.length) :
    replyPacket (datagramEvent data) r = some (writeIcmp r (restoreId r data)) := by
  have hdata : data.isEmpty = false := by
    cases data with
    | nil => simp at h
    | cons => rfl
  simp [replyPacket, datagramEvent, readFails, hdata]

theorem mem_written {l : Loop} {name : Nat} {e : SocketEnv} {t : Tcp.SocketEnv} {w : Bytes} :
    w ∈ written l (.socket name e t) ↔ ∃ x ∈ l.table, x.name = name ∧
      ∃ r, x.session = .icmp r ∧ 0 ≤ r.socket ∧ e.tun = true ∧ replyPacket e r = some w := by
  have hone : ∀ x, writtenBy e x = some w ↔
      ∃ r, x.session = .icmp r ∧ 0 ≤ r.socket ∧ e.tun = true ∧ replyPacket e r = some w := by
    rintro ⟨name, session⟩
    cases session with
    | icmp r => simp [writtenBy, and_assoc]
    | udp r => simp [writtenBy]
    | tcp r => simp [writtenBy]
  simp only [written, List.mem_filterMap, List.mem_filter, decide_eq_true_eq, hone, and_assoc]

/-- Replies are restored in the states in which the identifiers agree. -/
theorem restoring_iff (h : Traced s) : Restoring c s ↔ Agree Identified s := by
  constructor
  · intro hrestoring name p hsent x hx hname o ho hlength
    obtain ⟨hversion, hsaddr, hdaddr⟩ := h.addressed name p hsent x hx hname o ho
    obtain ⟨r, hr, rfl⟩ := icmp_of_origin ho
    -- the message itself would be an answer
    have hw : writeIcmp r (restoreId r p.message) ∈
        written s.loop (.socket name (datagramEvent p.message) Tcp.failed) :=
      mem_written.mpr ⟨x, hx, hname, r, hr, h.opened x hx _ ho, rfl, replyPacket_datagram r hlength⟩
    have hrestores :=
      hrestoring name p hsent (datagramEvent p.message) Tcp.failed p.message rfl ⟨hlength, rfl⟩ _ hw
    exact (restores_iff hlength hversion hsaddr hdaddr).mp hrestores
  · intro hagree name p hsent e t data hrecv hreply w hw
    obtain ⟨x, hx, hname, r, hr, -, -, hpacket⟩ := (mem_written (t := t)).mp hw
    have ho : origin x.session = some (originOf r) := by rw [hr]; rfl
    obtain ⟨hversion, hsaddr, hdaddr⟩ := h.addressed name p hsent x hx hname _ ho
    have hlength : 8 ≤ p.message.length := by
      have hseq := congrArg List.length hreply.seq
      have hheader := hreply.header
      simp only [List.length_take, List.length_drop] at hseq
      omega
    rw [replyPacket_ok hrecv hpacket]
    exact (restores_iff hreply.header hversion hsaddr hdaddr).mpr
      (hagree name p hsent x hx hname _ ho hlength)

/-- A step keeps the identifiers exactly if the request that it sends has that of its session. -/
theorem identified_step (h : Traced s) (hagree : Agree Identified s) :
    Agree Identified (pings c s i).1 ↔ SameId c s i := by
  constructor
  · intro hnext
    cases i with
    | packet e q =>
      cases q with
      | icmp p =>
        intro hall hlength hecho hlimit x hfind r hr
        have hsent : (x.name, p) ∈ (pings c s (.packet e (.icmp p))).1.sent := by
          apply List.mem_append_right
          exact (mem_sentBy c h.named _ _ _).mpr ⟨e, rfl, hall, ⟨hlimit, hecho⟩,
            .found x r hfind hr⟩
        have hy : (⟨x.name, .icmp (forwardIcmp e.now e.send p r).1⟩ : Entry) ∈
            (pings c s (.packet e (.icmp p))).1.loop.table := by
          show _ ∈ (handleIp c e (.icmp p) s.loop).1.table
          rw [handleIp, hlimit]
          show _ ∈ (handleIcmp e p s.loop).1.table
          rw [handleIcmp, if_neg (by simp [hecho]), hfind]
          refine mem_sweep.mpr ⟨x, List.mem_of_find?_eq_some hfind, ?_⟩
          simp [only, hr, icmpVisit]
        exact hnext x.name p hsent _ hy rfl _ rfl hlength
      | udp p => trivial
      | tcp p => trivial
    | _ => trivial
  · intro hsame
    apply agree_step h hagree
    · rintro e p rfl hall ⟨hlimit, hecho⟩ x hfind o ho hlength
      obtain ⟨r, hr, rfl⟩ := icmp_of_origin ho
      exact hsame hall hlength hecho hlimit x hfind r hr
    · exact fun fd p _ => rfl

theorem start_traced : Traced start :=
  ⟨empty_named, by simp [start], by simp [start, empty], by simp [Agree, start]⟩

/-- Replies are restored in every state of a run if and only if every request that is sent
through a session that is there carries the session's identifier. -/
theorem replies_restored_iff (c : Config) (is : List Input) :
    Always (pings c) (Restoring c) start is ↔ Along (pings c) (SameId c) start is := by
  refine always_iff_of_invariant (pings c) (SameId c) (Restoring c) Traced
    (fun s i h => traced_step h c i) ?_ start is
    start_traced ?_
  · intro s i h hrestoring
    rw [restoring_iff (traced_step h c i)]
    exact identified_step h ((restoring_iff h).mp hrestoring)
  · rw [restoring_iff start_traced]
    simp [Agree, start]

end

/-- An echo request with no data. -/
def ping (id : BitVec 16) (seq : UInt8) : IcmpPacket :=
  ⟨4, client, server 34, icmpEcho, id, [8, 0, 0, 0] ++ le16Bytes (~~~ id).toNat ++ [0, seq]⟩

/-- The session that the request of a first pinger creates. -/
def firstSession : IcmpSession := ⟨0, 4, client, server 34, 1, false, 5⟩

/-- Two pingers of one server: the answer to the second carries the identifier of the first. -/
theorem replies_not_restored :
    ¬ Always (pings (plainConfig 10 false)) (Restoring (plainConfig 10 false)) start
    [.packet (plainEnv 5) (.icmp (ping 1 1)), .packet (plainEnv 6) (.icmp (ping 2 7))] := by
  rintro ⟨-, -, h⟩
  let reply : Bytes := [0, 0, 0, 0, 0x39, 0x30, 0, 7]
  have hanswers : IsReply (ping 2 7) reply := ⟨by decide, by decide⟩
  have hw : writeIcmp firstSession (restoreId firstSession reply) ∈ (pings (plainConfig 10 false)
      (run (pings (plainConfig 10 false)) start
        [.packet (plainEnv 5) (.icmp (ping 1 1)), .packet (plainEnv 6) (.icmp (ping 2 7))]).1
      (.socket 0 (datagramEvent reply) Tcp.failed)).2 :=
    (mem_written (t := Tcp.failed)).mpr ⟨⟨0, .icmp firstSession⟩, by decide +kernel, rfl,
      firstSession, rfl, by decide, rfl, replyPacket_datagram firstSession (by decide)⟩
  have hrestores :=
    h 0 (ping 2 7) (by decide +kernel) (datagramEvent reply) Tcp.failed reply rfl hanswers _ hw
  have hid :=
    (restores_iff (s := firstSession) (p := ping 2 7) hanswers.header rfl rfl rfl).mp hrestores
  revert hid
  decide

end PdaNetClient.Icmp
