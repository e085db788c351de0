import PdaNetClient.SessionTable
import PdaNetClient.TcpSteps

/-!
# Keys of the session table

The handlers find a session by its addresses and ports. Keys are unique and do not change
as long as no DHCP request is answered for a session with another address: `check_dhcp`
writes its own address into the session it was asked about.
-/
namespace PdaNetClient.Table

open Runs Sweep Datagram
open Tcp (Addr)

set_option autoImplicit false

inductive Key where
  | icmp (version : Nat) (saddr daddr : Bytes)
  | udp (version : Nat) (saddr : Bytes) (source : Nat) (daddr : Bytes) (dest : Nat)
  | tcp (version : Nat) (saddr : Bytes) (source : Nat) (daddr : Bytes) (dest : Nat)
  deriving DecidableEq, Repr

def Session.key : Session → Key
  | .icmp s => .icmp s.version (addrKey s.version s.saddr) (addrKey s.version s.daddr)
  | .udp s => .udp s.version (addrKey s.version s.saddr) s.source (addrKey s.version s.daddr) s.dest
  | .tcp s => .tcp s.version (addrKey s.version s.saddr) s.source (addrKey s.version s.daddr) s.dest

/-- A stopped ICMP session is not found any more. -/
def Session.found : Session → Bool
  | .icmp s => !s.stop
  | _ => true

def Entry.key (x : Entry) : Option Key := if x.session.found then some x.session.key else none

def Packet.key : Packet → Key
  | .icmp p => .icmp p.version (addrKey p.version p.saddr) (addrKey p.version p.daddr)
  | .udp p => .udp p.version (addrKey p.version p.saddr) p.source (addrKey p.version p.daddr) p.dest
  | .tcp p => .tcp p.version (addrKey p.version p.saddr) p.source (addrKey p.version p.daddr) p.dest

/-- What every step has to keep: unique keys, the key of each session, that of a new one
being the key of its packet; and so a packet finds the session with its key. -/
structure Keyed (c : Config) (l : Loop) (i : Input) : Prop where
  unique : ((step c l i).1.table.filterMap Entry.key).Nodup
  unchanged : ∀ x ∈ l.table, ∀ y ∈ (step c l i).1.table, y.name = x.name →
    y.session.key = x.session.key
  created : ∀ e p, i = .packet e p → ∀ y ∈ (step c l i).1.table, y.name = l.next →
    y.session.key = p.key
  found : ∀ p : Packet, ∀ x ∈ (step c l i).1.table, x.key = some p.key →
    (step c l i).1.table.find? p.finds = some x

/-- The packet gets as far as `check_dhcp`, and is a request. -/
def Answers (c : Config) (l : Loop) (e : PacketEnv) (p : UdpPacket) : Prop :=
  limited c (.udp p) l = false ∧ dhcpPorts p ∧ isDhcpRequest p.data ∧
    match l.table.find? (matchesUdp p) with
    | some x => x.session.active = true
    | none => ∃ fd, e.sock = .ok fd

/-- A DHCP request is answered only for the address that the answer is about. -/
def KeepsKeys (c : Config) (l : Loop) : Input → Prop
  | .packet e (.udp p) => Answers c l e p → p.saddr.ip4 = [10, 1, 10, 1]
  | _ => True

/-! ## Searching -/

theorem sameAddr_iff {version : Nat} {a b : Addr} :
    sameAddr version a b ↔ addrKey version a = addrKey version b := by
  unfold sameAddr addrKey
  split <;> rfl

/-- The comparison of two flows, with the addresses as the version has them. -/
theorem sameFlow_iff {v v' sp sp' dp dp' : Nat} {sa sa' da da' : Addr} :
    (v = v' ∧ sp = sp' ∧ dp = dp' ∧ sameAddr v' sa sa' ∧ sameAddr v' da da') ↔
      (v = v' ∧ addrKey v sa = addrKey v' sa' ∧ sp = sp' ∧
        addrKey v da = addrKey v' da' ∧ dp = dp') := by
  simp only [sameAddr_iff]
  constructor
  · rintro ⟨rfl, hsp, hdp, hs, hd⟩
    exact ⟨rfl, hs, hsp, hd, hdp⟩
  · rintro ⟨rfl, hs, hsp, hd, hdp⟩
    exact ⟨rfl, hsp, hdp, hs, hd⟩

theorem matchesIcmp_iff (p : IcmpPacket) (x : Entry) :
    matchesIcmp p x = true ↔ x.key = some (Packet.icmp p).key := by
  obtain ⟨name, s⟩ := x
  cases s with
  | icmp s =>
    have hpair := @sameFlow_iff s.version p.version 0 0 0 0 s.saddr p.saddr s.daddr p.daddr
    cases hstop : s.stop with
    | true => simp [matchesIcmp, Entry.key, Session.found, hstop]
    | false =>
      simpa [matchesIcmp, Entry.key, Session.found, Session.key, Packet.key, hstop] using hpair
  | udp s => simp [matchesIcmp, Entry.key, Session.found, Session.key, Packet.key]
  | tcp s => simp [matchesIcmp, Entry.key, Session.found, Session.key, Packet.key]

theorem matchesUdp_iff (p : UdpPacket) (x : Entry) :
    matchesUdp p x = true ↔ x.key = some (Packet.udp p).key := by
  obtain ⟨name, s⟩ := x
  cases s with
  | udp s =>
    simpa [matchesUdp, Entry.key, Session.found, Session.key, Packet.key] using sameFlow_iff
  | icmp s =>
    cases h : s.stop <;> simp [matchesUdp, Entry.key, Session.found, Session.key, Packet.key, h]
  | tcp s => simp [matchesUdp, Entry.key, Session.found, Session.key, Packet.key]

theorem matchesTcp_iff (p : TcpPacket) (x : Entry) :
    matchesTcp p x = true ↔ x.key = some (Packet.tcp p).key := by
  obtain ⟨name, s⟩ := x
  cases s with
  | tcp s =>
    simpa [matchesTcp, Entry.key, Session.found, Session.key, Packet.key] using sameFlow_iff
  | icmp s =>
    cases h : s.stop <;> simp [matchesTcp, Entry.key, Session.found, Session.key, Packet.key, h]
  | udp s => simp [matchesTcp, Entry.key, Session.found, Session.key, Packet.key]

theorem finds_iff (p : Packet) (x : Entry) : p.finds x = true ↔ x.key = some p.key := by
  cases p with
  | icmp p => exact matchesIcmp_iff p x
  | udp p => exact matchesUdp_iff p x
  | tcp p => exact matchesTcp_iff p x

/-! ## Visits -/

/-- A visit that leaves the key of its entry, or deletes it. -/
structure KeepsKey (x : Entry) (r : Option Entry × List Out) : Prop where
  name : ∀ y, r.1 = some y → y.name = x.name
  key : ∀ y, r.1 = some y → y.session.key = x.session.key
  found : ∀ y, r.1 = some y → y.session.found = true → x.session.found = true

section

variable {x : Entry}

theorem keepsKey_stay (outs : List Out) : KeepsKey x (some x, outs) := by
  refine ⟨?_, ?_, ?_⟩
  · rintro y ⟨⟩
    rfl
  · rintro y ⟨⟩
    rfl
  · rintro y ⟨⟩
    exact id

theorem keepsKey_gone (outs : List Out) : KeepsKey x (none, outs) :=
  ⟨fun _ h => (by cases h), fun _ h => (by cases h), fun _ h => (by cases h)⟩

theorem KeepsKey.deleteIf {r : Option Entry × List Out} (h : KeepsKey x r) (del : Bool) :
    KeepsKey x (deleteIf del r) := by
  cases del with
  | false => exact h
  | true => exact keepsKey_gone _

theorem keepsKey_tcp {s : Tcp.Session} (hs : x.session = .tcp s) {r : Tcp.Session × List Tcp.Out}
    (hr : r.1.fixed = s.fixed) : KeepsKey x (tcpVisit x r) := by
  simp only [Tcp.Session.fixed, Prod.mk.injEq] at hr
  obtain ⟨hversion, hsaddr, hsource, hdaddr, hdest, -⟩ := hr
  refine ⟨?_, ?_, ?_⟩
  · rintro y ⟨⟩
    rfl
  · rintro y ⟨⟩
    simp [hs, Session.key, hversion, hsaddr, hsource, hdaddr, hdest]
  · rintro y ⟨⟩ -
    simp [hs, Session.found]

theorem keepsKey_udp {s : UdpSession} (hs : x.session = .udp s) {r : UdpSession × List Datagram.Out}
    (hr : r.1.fixed = s.fixed) (hsaddr : addrKey s.version r.1.saddr = addrKey s.version s.saddr) :
    KeepsKey x (udpVisit x r) := by
  simp only [UdpSession.fixed, Prod.mk.injEq] at hr
  obtain ⟨hversion, hsource, hdaddr, hdest⟩ := hr
  refine ⟨?_, ?_, ?_⟩
  · rintro y ⟨⟩
    rfl
  · rintro y ⟨⟩
    simp [hs, Session.key, hversion, hsaddr, hsource, hdaddr, hdest]
  · rintro y ⟨⟩ -
    simp [hs, Session.found]

theorem keepsKey_icmp {s : IcmpSession} (hs : x.session = .icmp s)
    {r : IcmpSession × List Datagram.Out} (hr : IcmpLeaves s r) : KeepsKey x (icmpVisit x r) := by
  have hfixed := hr.fixed
  simp only [IcmpSession.fixed, Prod.mk.injEq] at hfixed
  obtain ⟨hversion, hsaddr, hdaddr⟩ := hfixed
  refine ⟨?_, ?_, ?_⟩
  · rintro y ⟨⟩
    rfl
  · rintro y ⟨⟩
    simp [hs, Session.key, hversion, hsaddr, hdaddr]
  · rintro y ⟨⟩ hfound
    cases hstop : s.stop with
    | false => simp [hs, Session.found, hstop]
    | true => simp [Session.found, hr.stop hstop] at hfound

theorem monitorVisit_keepsKey (abi : Abi) (e : Nat → Tcp.MonitorEnv) (x : Entry) :
    KeepsKey x (monitorVisit abi e x) := by
  unfold monitorVisit
  split
  · rename_i s hs
    exact keepsKey_tcp hs (Tcp.step_fixed abi s (.monitor (e x.name)))
  · exact keepsKey_stay _

theorem checkVisit_keepsKey (sessions maxsessions : Nat) (e : Nat → CheckAnswer) (x : Entry) :
    KeepsKey x (checkVisit sessions maxsessions e x) := by
  unfold checkVisit
  simp only
  split
  · rename_i s hs
    unfold checkIcmpSession
    split
    · exact keepsKey_gone _
    · exact (keepsKey_icmp hs ⟨rfl, rfl, id, rfl⟩).deleteIf _
  · rename_i s hs
    refine checkUdpSession_cases ⟨(e x.name).now, (e x.name).now2, sessions, maxsessions⟩
      s ?_ ?_ ?_ ?_
    · exact fun _ => (keepsKey_udp hs rfl rfl).deleteIf _
    · exact fun _ _ => (keepsKey_udp hs rfl rfl).deleteIf _
    · exact fun _ _ => (keepsKey_udp hs rfl rfl).deleteIf _
    · rintro t del rfl _
      exact (keepsKey_udp hs rfl rfl).deleteIf _
  · rename_i s hs
    have hfixed := Tcp.step_fixed .arm64V8a s
      (.check ⟨(e x.name).now, (e x.name).now2, sessions, maxsessions, (e x.name).rstOk⟩)
    exact (keepsKey_tcp hs hfixed).deleteIf _

theorem allowedVisit_keepsKey (e : Nat → Bool) (x : Entry) : KeepsKey x (allowedVisit e x) := by
  unfold allowedVisit
  split
  · rename_i s hs
    exact keepsKey_icmp (r := (_, [])) hs ⟨rfl, rfl, fun _ => rfl, rfl⟩
  · rename_i s hs
    split
    · exact keepsKey_udp (r := (_, [])) hs rfl rfl
    · exact keepsKey_gone _
    · exact keepsKey_stay _
  · rename_i s hs
    split
    · exact keepsKey_tcp hs (Tcp.writeRst_fixed _ s)
    · exact keepsKey_stay _

theorem socketVisit_keepsKey (abi : Abi) (e : SocketEnv) (t : Tcp.SocketEnv) (x : Entry) :
    KeepsKey x (socketVisit abi e t x) := by
  unfold socketVisit
  split
  · exact keepsKey_stay _
  · split
    · rename_i s hs
      exact keepsKey_icmp hs (checkIcmpSocket_leaves e s)
    · rename_i s hs
      obtain ⟨hleaves, hsaddr⟩ := checkUdpSocket_leaves e s
      split
      · exact keepsKey_udp hs hleaves.fixed (by rw [hsaddr])
      · exact keepsKey_stay _
    · rename_i s hs
      exact keepsKey_tcp hs (Tcp.step_fixed abi s (.socket t))

end

/-! ## The table -/

/-- The invariant: keys and names are unique. -/
structure Unique (l : Loop) : Prop where
  keys : (l.table.filterMap Entry.key).Nodup
  named : Named l

/-- What a step keeps of the keys. -/
structure KeptKeys (l : Loop) (r : Loop × List Out) : Prop where
  unique : Unique r.1
  unchanged : ∀ x ∈ l.table, ∀ y ∈ r.1.table, y.name = x.name → y.session.key = x.session.key

section

variable {l : Loop}

theorem Unique.found (h : Unique l) (p : Packet) (x : Entry) (hx : x ∈ l.table)
    (hk : x.key = some p.key) :
    l.table.find? p.finds = some x :=
  find?_of_nodup (finds_iff p) h.keys hx hk

theorem Unique.stay (h : Unique l) (outs : List Out) : KeptKeys l (l, outs) := by
  refine ⟨h, fun x hx y hy hname => ?_⟩
  rw [h.named.eq hx hy hname]

/-- The rule for passes. -/
theorem Unique.pass (h : Unique l) (f : Visit Entry Out) (hf : ∀ x ∈ l.table, KeepsKey x (f x)) :
    KeptKeys l (l.pass f) := by
  have hkeys : ((sweep f l.table).1.filterMap Entry.key).Sublist (l.table.filterMap Entry.key) := by
    refine filterMap_sublist fun x hx y hy => ?_
    unfold Entry.key
    cases hfound : y.session.found with
    | false => exact .inl rfl
    | true => exact .inr (by rw [(hf x hx).found y hy hfound, (hf x hx).key y hy])
  refine ⟨⟨hkeys.nodup h.keys, h.named.pass fun x hx => (hf x hx).name⟩, fun x hx y hy hname => ?_⟩
  obtain ⟨x', hx', hxy⟩ := mem_sweep.mp hy
  rw [(hf x' hx').key y hxy, h.named.eq hx' hx (hname.symm.trans ((hf x' hx').name y hxy))]

/-- No entry behind a pass has the name of a session to come. -/
theorem KeptKeys.old {r : Loop × List Out} (h : Unique r.1) (hnext : r.1.next = l.next) :
    ∀ y ∈ r.1.table, y.name ≠ l.next :=
  fun y hy => Nat.ne_of_lt (hnext ▸ h.named.next y hy)

/-- A session created for a packet that found none, with the key of the packet. -/
theorem Unique.create (h : Unique l) {p : Packet} (hnone : l.table.find? p.finds = none)
    {r : OpenResult} {s : Nat → Session × List Out}
    (hkey : ∀ fd, r = .ok fd → (s fd).1.key = p.key) :
    KeptKeys l (l.create r s) ∧ ∀ y ∈ (l.create r s).1.table, y.name = l.next →
    y.session.key = p.key := by
  have hold : ∀ y ∈ l.table, y.name ≠ l.next := fun y hy => h.named.ne_next hy
  cases r with
  | failed => exact ⟨h.stay _, fun y hy hname => absurd hname (hold y hy)⟩
  | leaked fd =>
    have hstay := h.stay []
    exact ⟨⟨⟨h.keys, h.named.create _ s⟩, hstay.unchanged⟩,
      fun y hy hname => absurd hname (hold y hy)⟩
  | ok fd =>
    have hapart : ∀ k, Entry.key ⟨l.next, (s fd).1⟩ = some k → k ∉ l.table.filterMap Entry.key := by
      intro k hk hmem
      obtain ⟨x, hx, hxk⟩ := List.mem_filterMap.mp hmem
      have hpk : k = p.key := by
        unfold Entry.key at hk
        split at hk
        · injection hk with hk
          rw [← hk]
          exact hkey fd rfl
        · cases hk
      exact List.find?_eq_none.mp hnone x hx ((finds_iff p x).mpr (hpk ▸ hxk))
    refine ⟨⟨⟨?_, h.named.create _ s⟩, fun x hx y hy hname => ?_⟩, fun y hy hname => ?_⟩
    · show ((_ :: l.table).filterMap Entry.key).Nodup
      cases hk : Entry.key ⟨l.next, (s fd).1⟩ with
      | none =>
        rw [List.filterMap_cons_none hk]
        exact h.keys
      | some k =>
        rw [List.filterMap_cons_some hk]
        exact List.nodup_cons.mpr ⟨hapart k hk, h.keys⟩
    · rcases List.mem_cons.mp hy with rfl | hy
      · exact absurd hname.symm (hold x hx)
      · rw [h.named.eq hx hy hname]
    · rcases List.mem_cons.mp hy with rfl | hy
      · exact hkey fd rfl
      · exact absurd hname (hold y hy)

/-! ## Packets -/

theorem Unique.visit (h : Unique l) {x : Entry} (hx : x ∈ l.table) {f : Visit Entry Out}
    (hf : KeepsKey x (f x)) :
    KeptKeys l (l.visit x f) := by
  refine h.pass _ fun y hy => ?_
  refine only_cases Entry.name x.name f y ?_ ?_
  · exact keepsKey_stay _
  · intro hname
    rw [h.named.eq hx hy hname]
    exact hf

/-- A packet keeps the keys when it leaves that of the session it finds, and creates one
with its own. -/
def PacketKeeps (l : Loop) (p : Packet) (r : Loop × List Out) : Prop :=
  KeptKeys l r ∧ ∀ y ∈ r.1.table, y.name = l.next → y.session.key = p.key

theorem KeptKeys.packet {r : Loop × List Out} (h : KeptKeys l r) (hnext : r.1.next = l.next)
    (p : Packet) :
    PacketKeeps l p r :=
  ⟨h, fun y hy hname => absurd hname (KeptKeys.old h.unique hnext y hy)⟩

theorem ip4_of_addrKey {version : Nat} {a b : Addr}
    (h : addrKey version a = addrKey version b) : a.ip4 = b.ip4 := by
  unfold addrKey at h
  split at h
  · exact h
  · rw [Addr.ip4, Addr.ip4, h]

theorem serverAddr_of_ip4 {a : Addr} (h : a.ip4 = [10, 1, 10, 1]) : serverAddr a = a := by
  obtain ⟨ip6, hlen⟩ := a
  have hjoin : [10, 1, 10, 1] ++ ip6.drop 4 = ip6 := by
    rw [← show ip6.take 4 = [10, 1, 10, 1] from h]
    exact List.take_append_drop 4 ip6
  simp [serverAddr, hjoin]

/-- What the address becomes is what it was, exactly if no request is answered or the
answer is about it. -/
theorem forwardUdp_addrKey (e : UdpEnv) (p : UdpPacket) (s : UdpSession) :
    addrKey s.version (forwardUdp e p s).1.saddr = addrKey s.version s.saddr ↔
      (dhcpPorts p ∧ isDhcpRequest p.data → s.saddr.ip4 = [10, 1, 10, 1]) := by
  rw [(forwardUdp_leaves e p s).2]
  by_cases hanswer : dhcpPorts p ∧ isDhcpRequest p.data
  · rw [if_pos hanswer]
    constructor
    · intro h _
      rw [← ip4_of_addrKey h]
      simp [serverAddr, Addr.ip4]
    · intro h
      rw [serverAddr_of_ip4 (h hanswer)]
  · rw [if_neg hanswer]
    exact ⟨fun _ h => absurd h hanswer, fun _ => rfl⟩

/-- The session a packet finds has its address. -/
theorem saddr_of_finds {p : UdpPacket} {x : Entry} {s : UdpSession} (hs : x.session = .udp s)
    (h : matchesUdp p x = true) : s.saddr.ip4 = p.saddr.ip4 := by
  simp only [matchesUdp, hs, decide_eq_true_eq] at h
  exact ip4_of_addrKey (sameAddr_iff.mp h.2.2.2.1)

/-- The key behind `forwardUdp` is the key before it exactly if the address stays. -/
theorem forwardUdp_key (e : UdpEnv) (p : UdpPacket) (s : UdpSession) :
    (Session.udp (forwardUdp e p s).1).key = (Session.udp s).key ↔
      (dhcpPorts p ∧ isDhcpRequest p.data → s.saddr.ip4 = [10, 1, 10, 1]) := by
  have hfixed := (forwardUdp_leaves e p s).1.fixed
  simp only [UdpSession.fixed, Prod.mk.injEq] at hfixed
  obtain ⟨hversion, hsource, hdaddr, hdest⟩ := hfixed
  rw [← forwardUdp_addrKey e]
  simp [Session.key, hversion, hsource, hdaddr, hdest]

/-- A packet leaves the key of the session it finds, if no DHCP request for another address is
answered. -/
theorem packetVisit_keepsKey (abi : Abi) (e : PacketEnv) (p : Packet) {x : Entry}
    (hdhcp : ∀ q s, p = .udp q → x.session = .udp s → s.state = .active →
      dhcpPorts q ∧ isDhcpRequest q.data → s.saddr.ip4 = [10, 1, 10, 1]) :
    KeepsKey x (packetVisit abi e p x) := by
  refine packetVisit_cases abi e p x ?_ ?_ ?_ ?_
  · exact keepsKey_stay _
  · intro q s _ hs
    exact keepsKey_icmp hs (forwardIcmp_leaves e.now e.send q s)
  · intro q s hp hs hst
    have haddr := (forwardUdp_addrKey ⟨e.now, e.send, e.tun⟩ q s).mpr (hdhcp q s hp hs hst)
    exact keepsKey_udp hs (forwardUdp_leaves _ q s).1.fixed haddr
  · intro q s _ hs
    exact keepsKey_tcp hs (Tcp.step_fixed abi s (.packet e.tcp q.segment))

theorem created_key (e : PacketEnv) (name : Nat) (p : Packet) (fd : Nat)
    (hdhcp : ∀ q, p = .udp q → dhcpPorts q ∧ isDhcpRequest q.data → q.saddr.ip4 = [10, 1, 10, 1]) :
    (created e name p fd).1.key = p.key := by
  cases p with
  | icmp p => rfl
  | udp p =>
    exact (forwardUdp_key ⟨e.now, e.send, e.tun⟩ p (newUdpSession e.now fd p)).mpr (hdhcp p rfl)
  | tcp p => rfl

theorem handleIp_keeps (h : Unique l) (c : Config) (e : PacketEnv) (p : Packet)
    (hcond : KeepsKeys c l (.packet e p)) :
    PacketKeeps l p (handleIp c e p l) := by
  refine handleIp_cases c e p l ?_ ?_ ?_ ?_
  · exact fun _ => (h.stay _).packet rfl _
  · exact fun _ _ _ _ => (h.stay _).packet rfl _
  · intro x hlimit hfind
    refine (h.visit (List.mem_of_find?_eq_some hfind) ?_).packet rfl _
    refine packetVisit_keepsKey c.abi e p fun q s hp hs hst hanswer => ?_
    subst hp
    have hactive : x.session.active = true := by simp [hs, Session.active, hst]
    have hfind : l.table.find? (matchesUdp q) = some x := hfind
    rw [saddr_of_finds hs (List.find?_some hfind)]
    exact hcond ⟨hlimit, hanswer.1, hanswer.2, by rw [hfind]; exact hactive⟩
  · intro hlimit hfind _
    cases hsock : e.sock with
    | failed => exact h.create hfind fun fd hfd => by cases hfd
    | leaked fd => exact h.create hfind fun fd hfd => by cases hfd
    | ok fd =>
      refine h.create hfind fun fd' _ => created_key e l.next p fd' fun q hp hanswer => ?_
      subst hp
      have hfind : l.table.find? (matchesUdp q) = none := hfind
      exact hcond ⟨hlimit, hanswer.1, hanswer.2, by rw [hfind]; exact ⟨fd, hsock⟩⟩

/-- An answered request for another address takes the key of its session away. -/
theorem handleUdp_loses (c : Config) (e : PacketEnv) (p : UdpPacket)
    (hunchanged : ∀ x ∈ l.table, ∀ y ∈ (handleUdp e p l).1.table, y.name = x.name →
      y.session.key = x.session.key)
    (hcreated : ∀ y ∈ (handleUdp e p l).1.table, y.name = l.next →
      y.session.key = (Packet.udp p).key)
    (hanswer : Answers c l e p) : p.saddr.ip4 = [10, 1, 10, 1] := by
  obtain ⟨-, hports, hrequest, hfound⟩ := hanswer
  cases hfind : l.table.find? (matchesUdp p) with
  | some x =>
    rw [hfind] at hfound
    have hx := List.mem_of_find?_eq_some hfind
    have hmatch := List.find?_some hfind
    obtain ⟨name, session⟩ := x
    cases session with
    | udp s =>
      have hst : s.state = .active := by simpa [Session.active] using hfound
      have hy : (⟨name, .udp (forwardUdp ⟨e.now, e.send, e.tun⟩ p s).1⟩ : Entry) ∈
          (handleUdp e p l).1.table := by
        rw [handleUdp, hfind]
        refine mem_sweep.mpr ⟨_, hx, ?_⟩
        simp [only, hst, udpVisit]
      have hkey := hunchanged _ hx _ hy rfl
      rw [← saddr_of_finds (s := s) rfl hmatch]
      exact (forwardUdp_key _ p s).mp hkey ⟨hports, hrequest⟩
    | icmp s => simp [matchesUdp] at hmatch
    | tcp s => simp [matchesUdp] at hmatch
  | none =>
    rw [hfind] at hfound
    obtain ⟨fd, hfd⟩ := hfound
    have hy :
      (⟨l.next, .udp (forwardUdp ⟨e.now, e.send, e.tun⟩ p (newUdpSession e.now fd p)).1⟩ : Entry) ∈
        (handleUdp e p l).1.table := by
      rw [handleUdp, hfind]
      simp [Loop.create, hfd, Loop.insert]
    have hkey := hcreated _ hy rfl
    exact (forwardUdp_key _ p (newUdpSession e.now fd p)).mp hkey ⟨hports, hrequest⟩

/-! ## Runs -/

theorem step_keeps (c : Config) (h : Unique l) (i : Input) (hcond : KeepsKeys c l i) :
    KeptKeys l (step c l i) ∧ ∀ e p, i = .packet e p → PacketKeeps l p (step c l i) := by
  cases i with
  | monitor e =>
    have hcount : Unique { l with sessions := count l.table } :=
      ⟨h.keys, ⟨h.named.unique, h.named.next⟩⟩
    have hpass := hcount.pass (monitorVisit c.abi e) fun x _ => monitorVisit_keepsKey c.abi e x
    exact ⟨⟨hpass.unique, hpass.unchanged⟩, by simp⟩
  | check e => exact ⟨h.pass _ fun x _ => checkVisit_keepsKey _ _ e x, by simp⟩
  | packet e p =>
    have hpacket : PacketKeeps l p (step c l (.packet e p)) := handleIp_keeps h c e p hcond
    refine ⟨hpacket.1, fun e' p' hp => ?_⟩
    injection hp with he hp
    subst he hp
    exact hpacket
  | socket name e t =>
    refine ⟨h.pass _ fun x _ => ?_, by simp⟩
    refine only_cases Entry.name name (socketVisit c.abi e t) x ?_ ?_
    · exact keepsKey_stay _
    · exact fun _ => socketVisit_keepsKey c.abi e t x
  | allowed e => exact ⟨h.pass _ fun x _ => allowedVisit_keepsKey e x, by simp⟩
  | clear => exact ⟨h.pass _ fun x _ => keepsKey_gone _, by simp⟩

theorem keyed_iff (c : Config) (h : Unique l) (i : Input) : Keyed c l i ↔ KeepsKeys c l i := by
  constructor
  · intro hkeyed
    cases i with
    | packet e p =>
      cases p with
      | udp p =>
        intro hanswer
        have hstep : step c l (.packet e (.udp p)) = handleUdp e p l := by
          show handleIp c e (.udp p) l = handleUdp e p l
          rw [handleIp, hanswer.1]
          rfl
        have hunchanged := hkeyed.unchanged
        have hcreated := hkeyed.created e (.udp p) rfl
        rw [hstep] at hunchanged hcreated
        exact handleUdp_loses c e p hunchanged hcreated hanswer
      | icmp p => trivial
      | tcp p => trivial
    | _ => trivial
  · intro hcond
    obtain ⟨hkept, hpacket⟩ := step_keeps c h i hcond
    exact ⟨hkept.unique.keys, hkept.unchanged, fun e p hp => (hpacket e p hp).2, hkept.unique.found⟩

/-- Keys stay unique and unchanged along a run if and only if every DHCP request that is
answered comes from the address it is answered for. -/
theorem run_keyed_iff (c : Config) (is : List Input) :
    Along (step c) (Keyed c) empty is ↔ Along (step c) (KeepsKeys c) empty is := by
  refine along_iff_of_invariant (step c) (KeepsKeys c) (Keyed c) Unique
    (fun l i hl => keyed_iff c hl i) ?_ empty is ?_
  · exact fun l i hl hi => (step_keeps c hl i hi).1.unique
  · exact ⟨by simp [empty], empty_named⟩

end

/-- A DHCP message to start with: operation, hardware, magic number, no options. -/
def dhcpMessage (opcode : UInt8) : Bytes := [opcode, 1, 6] ++ List.replicate 233 0 ++ dhcpMagic

def dhcpDiscover : Packet :=
  udpPacket (.ofIp4 0 0 0 0) 68 (.ofIp4 255 255 255 255) 67 (dhcpMessage 1)

/-- The answer moves the session to 10.1.10.1, so the same client is not found again and
its second message opens a second session, which is moved to the same address. -/
theorem discover_twice :
    ¬ Along (step (plainConfig 10 false)) (Keyed (plainConfig 10 false)) empty
      [.packet (plainEnv 5) dhcpDiscover, .packet (plainEnv 6) dhcpDiscover] := by
  intro h
  have hunique := h.2.1.unique
  revert hunique
  decide +kernel

end PdaNetClient.Table
