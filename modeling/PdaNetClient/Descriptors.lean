import PdaNetClient.SessionTable
import PdaNetClient.TcpDescriptor

/-!
# Descriptors of the session table

Every entry holds at most one descriptor, no two hold the same, and what is closed was
open and held. The passes over the table need only be looked at one entry at a time.
-/
namespace PdaNetClient.Table

open Runs Sweep Datagram
open Tcp (held held_neg_one held_of_nonneg)

set_option autoImplicit false

def Entry.holds (x : Entry) : Option Int := held x.session.socket

/-- In which states a session holds a descriptor. -/
def Session.Disciplined : Session → Prop
  | .icmp _ => True
  | .udp s => 0 ≤ s.socket ↔ s.state = .active ∨ s.state = .finishing
  | .tcp s => (s.state = .finWait1 ∨ s.state = .lastAck ∨ s.state = .close → s.socket = -1) ∧
      (s.state = .listen ∨ s.state = .synRecv ∨ s.state = .established ∨ s.state = .closeWait →
        0 ≤ s.socket)

/-- ACTIVE, FINISHING, CLOSED. -/
def rank : UdpState → Nat
  | .active => 0
  | .finishing => 1
  | .closed => 2
  | .blocked => 3

/-- The state of a UDP session does not move backwards. -/
def Forward (x y : Session) : Prop :=
  match x, y with
  | .udp s, .udp t => rank s.state ≤ rank t.state
  | _, _ => True

/-- What every step has to keep: the sessions, their descriptors, and what is closed or freed. -/
structure Discipline (c : Config) (l : Loop) (i : Input) : Prop where
  sessions : ∀ x ∈ (step c l i).1.table, x.session.Disciplined
  distinct : ((step c l i).1.table.filterMap Entry.holds).Nodup
  forward : ∀ x ∈ l.table, ∀ y ∈ (step c l i).1.table, y.name = x.name → Forward x.session y.session
  freed : ∀ s, Out.freed s ∈ (step c l i).2 → s.socket = -1
  closes : ((step c l i).2.filterMap Out.closes).Nodup ∧
    ∀ fd ∈ (step c l i).2.filterMap Out.closes, fd ∈ l.opened ∧ fd ∉ (step c l i).1.opened

/-- `socket()` returns a descriptor that is not open. -/
def Fresh (l : Loop) : Input → Prop
  | .packet e _ => ∀ fd ∈ e.sock.opens, fd ∉ l.opened
  | _ => True

instance (l : Loop) : (i : Input) → Decidable (Fresh l i)
  | .packet e _ => inferInstanceAs (Decidable (∀ fd ∈ e.sock.opens, fd ∉ l.opened))
  | .monitor _ | .check _ | .socket _ _ _ | .allowed _ | .clear => inferInstanceAs (Decidable True)

/-! ## One session -/

/-- The relation of state and descriptor, for each protocol. -/
def Session.Sound : Session → Prop
  | .icmp s => 0 ≤ s.socket
  | .udp s => match s.state with
    | .active | .finishing => 0 ≤ s.socket
    | .closed | .blocked => s.socket = -1
  | .tcp s => Tcp.Descriptor s.state s.socket

theorem Session.Sound.disciplined {x : Session} (h : x.Sound) : x.Disciplined := by
  cases x with
  | icmp s => trivial
  | udp s =>
    simp only [Session.Sound] at h
    simp only [Session.Disciplined]
    cases hst : s.state <;> simp [hst] at h ⊢ <;> omega
  | tcp s =>
    simp only [Session.Sound] at h
    constructor
    · rintro (hst | hst | hst) <;> simpa [hst, Tcp.Descriptor] using h
    · rintro (hst | hst | hst | hst) <;> simpa [hst, Tcp.Descriptor] using h

/-- A visit that keeps the discipline of its entry. -/
structure Careful (x : Entry) (r : Option Entry × List Out) : Prop where
  keeps : Keeps Entry.holds Out.closes x r
  left : ∀ y, r.1 = some y → y.name = x.name ∧ y.session.Sound ∧ Forward x.session y.session
  freed : ∀ s, Out.freed s ∈ r.2 → s.socket = -1

@[simp] theorem closes_tcp (n : Nat) (outs : List Tcp.Out) :
    (outs.map (Out.tcp n)).filterMap Out.closes = outs.filterMap Tcp.Out.closes := by
  rw [List.filterMap_map]
  congr 1
  funext o
  cases o <;> rfl

@[simp] theorem closes_datagram (n : Nat) (outs : List Datagram.Out) :
    (outs.map (Out.datagram n)).filterMap Out.closes = outs.filterMap Datagram.Out.closes := by
  rw [List.filterMap_map]
  congr 1
  funext o
  cases o <;> rfl

@[simp] theorem Forward.refl (s : Session) : Forward s s := by
  cases s <;> simp [Forward]

section

variable {x : Entry}

theorem careful_stay (hx : x.session.Sound) : Careful x (some x, []) where
  keeps := rfl
  left y hy := by
    injection hy with hy
    exact hy ▸ ⟨rfl, hx, Forward.refl _⟩
  freed s hs := by cases hs

/-- A changed session whose outputs are those of a TCP handler. -/
theorem careful_tcp {s : Tcp.Session} (hs : x.session = .tcp s) {r : Tcp.Session × List Tcp.Out}
    (hr : Tcp.Careful s r) : Careful x (tcpVisit x r) where
  keeps := by
    have hheld := hr.held
    rw [← closes_tcp x.name] at hheld
    simpa [Keeps, tcpVisit, Entry.holds, hs, Session.socket] using hheld
  left y hy := by
    injection hy with hy
    rw [← hy]
    exact ⟨rfl, hr.state, by rw [hs]; trivial⟩
  freed t ht := by simp [tcpVisit] at ht

theorem careful_icmp {s : IcmpSession} (hs : x.session = .icmp s) (hopen : 0 ≤ s.socket)
    {r : IcmpSession × List Datagram.Out} (hr : IcmpLeaves s r) : Careful x (icmpVisit x r) where
  keeps := by
    show (r.2.map (Out.datagram x.name)).filterMap Out.closes ++ (held r.1.socket).toList =
      x.holds.toList
    rw [closes_datagram, hr.closes, hr.socket, Entry.holds, hs]
    rfl
  left y hy := by
    injection hy with hy
    rw [← hy]
    exact ⟨rfl, show 0 ≤ r.1.socket by rw [hr.socket]; exact hopen, by rw [hs]; trivial⟩
  freed t ht := by simp [icmpVisit] at ht

theorem careful_udp {s : UdpSession} (hs : x.session = .udp s) {r : UdpSession × List Datagram.Out}
    (hsound : (Session.udp r.1).Sound) (hforward : rank s.state ≤ rank r.1.state)
    (hheld : r.2.filterMap Datagram.Out.closes ++ (held r.1.socket).toList =
      (held s.socket).toList) :
    Careful x (udpVisit x r) where
  keeps := by
    show (r.2.map (Out.datagram x.name)).filterMap Out.closes ++ (held r.1.socket).toList =
      x.holds.toList
    rw [closes_datagram, hheld, Entry.holds, hs]
    rfl
  left y hy := by
    injection hy with hy
    rw [← hy]
    exact ⟨rfl, hsound, by rw [hs]; exact hforward⟩
  freed t ht := by simp [udpVisit] at ht

theorem udp_sound {s : UdpSession} (hopen : 0 ≤ s.socket)
    (hst : s.state = .active ∨ s.state = .finishing) {r : UdpSession × List Datagram.Out}
    (hr : UdpLeaves s r) : (Session.udp r.1).Sound := by
  simp only [Session.Sound, hr.socket]
  rcases hr.state with hstay | hfinish
  · rcases hst with hst | hst <;> simpa [hstay, hst] using hopen
  · simpa [hfinish] using hopen

/-- A handler that closed nothing, on a session whose descriptor is open. -/
theorem careful_udp_open {s : UdpSession} (hs : x.session = .udp s) (hopen : 0 ≤ s.socket)
    (hst : s.state = .active ∨ s.state = .finishing) {r : UdpSession × List Datagram.Out}
    (hr : UdpLeaves s r) :
    Careful x (udpVisit x r) := by
  refine careful_udp hs (udp_sound hopen hst hr) ?_ ?_
  · rcases hr.state with hstay | hfinish
    · rw [hstay]
    · rcases hst with hst | hst <;> simp [hst, hfinish, rank]
  · rw [hr.closes, hr.socket, List.nil_append]

/-- A deleted entry, whose descriptor is closed with it if it has one. -/
theorem careful_gone {outs : List Out} (hcloses : outs.filterMap Out.closes = x.holds.toList)
    (hfreed : ∀ s, Out.freed s ∈ outs → s.socket = -1) : Careful x (none, outs) where
  keeps := by simp [Keeps, hcloses]
  left y hy := by cases hy
  freed := hfreed

/-- An entry may be deleted when its descriptor is closed. -/
theorem Careful.deleteIf {r : Option Entry × List Out} (h : Careful x r) {del : Bool}
    (hdel : del = true → ∀ y, r.1 = some y → y.session.socket = -1) :
    Careful x (deleteIf del r) := by
  cases del with
  | false => exact h
  | true =>
    have hgone : (r.1.bind Entry.holds).toList = [] := by
      cases hr : r.1 with
      | none => rfl
      | some y => simp [Entry.holds, hdel rfl y hr]
    refine ⟨?_, by simp [Table.deleteIf], fun s hs => ?_⟩
    · have hkeeps := h.keeps
      unfold Keeps at hkeeps ⊢
      rw [hgone] at hkeeps
      cases hr : r.1 with
      | none => simpa [Table.deleteIf, hr] using hkeeps
      | some y =>
        have hnone : [Out.freed y.session].filterMap Out.closes = [] := rfl
        simpa [Table.deleteIf, hr, hnone] using hkeeps
    · rcases List.mem_append.mp hs with hs | hs
      · exact h.freed s hs
      · cases hr : r.1 with
        | none => simp [hr] at hs
        | some y =>
          have hy : s = y.session := by simpa [hr] using hs
          exact hy ▸ hdel rfl y hr

end

/-! ## The visits -/

section

variable {x : Entry} (hx : x.session.Sound)

include hx

theorem monitorVisit_careful (abi : Abi) (e : Nat → Tcp.MonitorEnv) :
    Careful x (monitorVisit abi e x) := by
  unfold monitorVisit
  split
  · rename_i s hs
    rw [hs] at hx
    refine careful_tcp hs ?_
    show Tcp.Careful s (if 0 ≤ s.socket then _ else _)
    split
    · exact (Tcp.monitor_leaves (e x.name) hx).careful
    · exact Tcp.Leaves.careful ⟨hx, rfl, rfl⟩
  · exact careful_stay hx

theorem checkIcmp_careful {s : IcmpSession} (hs : x.session = .icmp s) (e : Datagram.CheckEnv) :
    Careful x (deleteIf (checkIcmpSession e s).2.1
      (icmpVisit x ((checkIcmpSession e s).1, (checkIcmpSession e s).2.2))) := by
  rw [hs] at hx
  unfold checkIcmpSession
  split
  · refine careful_gone ?_ (by simp [icmpVisit, Session.socket])
    simp [icmpVisit, Out.closes, Entry.holds, hs, Session.socket, held_of_nonneg hx]
  · exact Careful.deleteIf (careful_icmp hs hx ⟨rfl, rfl, id, rfl⟩) (by simp)

theorem checkUdp_careful {s : UdpSession} (hs : x.session = .udp s) (e : Datagram.CheckEnv) :
    Careful x (deleteIf (checkUdpSession e s).2.1
      (udpVisit x ((checkUdpSession e s).1, (checkUdpSession e s).2.2))) := by
  rw [hs] at hx
  refine checkUdpSession_cases e s ?_ ?_ ?_ ?_
  · intro hst
    have hopen : 0 ≤ s.socket := by simpa [Session.Sound, hst] using hx
    exact Careful.deleteIf
      (careful_udp_open hs hopen (.inl hst) ⟨rfl, rfl, .inl rfl, rfl⟩) (by simp)
  · intro del hst
    have hgone : s.socket = -1 := by simpa [Session.Sound, hst] using hx
    refine Careful.deleteIf (careful_udp hs hx (Nat.le_refl _) rfl) fun _ y hy => ?_
    injection hy with hy
    exact hy ▸ hgone
  · intro del hst
    have hgone : s.socket = -1 := by simpa [Session.Sound, hst] using hx
    refine Careful.deleteIf (careful_udp hs hx (Nat.le_refl _) rfl) fun _ y hy => ?_
    injection hy with hy
    exact hy ▸ hgone
  · rintro t del rfl hst
    have hopen : 0 ≤ s.socket := hx.disciplined.mpr hst
    refine Careful.deleteIf (careful_udp hs ?_ ?_ ?_) fun _ y hy => ?_
    · rfl
    · rcases hst with hst | hst <;> simp [hst, rank]
    · simp [held_of_nonneg hopen, Datagram.Out.closes]
    · injection hy with hy
      exact hy ▸ rfl

theorem checkVisit_careful (sessions maxsessions : Nat) (e : Nat → CheckAnswer) :
    Careful x (checkVisit sessions maxsessions e x) := by
  unfold checkVisit
  simp only
  split
  · rename_i s hs
    exact checkIcmp_careful hx hs _
  · rename_i s hs
    exact checkUdp_careful hx hs _
  · rename_i s hs
    rw [hs] at hx
    obtain ⟨hcareful, hgone⟩ := Tcp.checkTcpSession_careful
      ⟨(e x.name).now, (e x.name).now2, sessions, maxsessions, (e x.name).rstOk⟩ hx
    refine (careful_tcp hs hcareful).deleteIf fun hdel y hy => ?_
    injection hy with hy
    exact hy ▸ hgone hdel

theorem allowedVisit_careful (e : Nat → Bool) : Careful x (allowedVisit e x) := by
  unfold allowedVisit
  split
  · rename_i s hs
    rw [hs] at hx
    exact careful_icmp (r := (_, [])) hs hx ⟨rfl, rfl, fun _ => rfl, rfl⟩
  · rename_i s hs
    rw [hs] at hx
    split
    · rename_i hst
      have hopen : 0 ≤ s.socket := by simpa [Session.Sound, hst] using hx
      exact careful_udp_open (r := (_, [])) hs hopen (.inl hst) ⟨rfl, rfl, .inr rfl, rfl⟩
    · rename_i hst
      have hgone : s.socket = -1 := by simpa [Session.Sound, hst] using hx
      refine careful_gone ?_ ?_
      · simp [Out.closes, Entry.holds, hs, Session.socket, hgone]
      · simp [hs, Session.socket, hgone]
    · exact careful_stay (hs ▸ hx)
  · rename_i s hs
    rw [hs] at hx
    split
    · exact careful_tcp hs (Tcp.writeRst_leaves _ hx).careful
    · exact careful_stay (hs ▸ hx)

omit hx in
theorem clearVisit_careful (x : Entry) : Careful x (clearVisit x) := by
  unfold clearVisit
  refine careful_gone ?_ ?_
  · unfold Entry.holds
    split
    · rename_i hopen
      rw [held_of_nonneg hopen]
      rfl
    · rename_i hclosed
      rw [held, if_neg hclosed]
      rfl
  · split <;> simp

theorem socketVisit_careful (abi : Abi) (e : SocketEnv) (t : Tcp.SocketEnv) :
    Careful x (socketVisit abi e t x) := by
  unfold socketVisit
  split
  · exact careful_stay hx
  · rename_i hopen
    split
    · rename_i s hs
      rw [hs] at hx
      exact careful_icmp hs hx (checkIcmpSocket_leaves e s)
    · rename_i s hs
      rw [hs] at hx hopen
      have hopen : 0 ≤ s.socket := by simpa [Session.socket] using hopen
      have hst : s.state = .active ∨ s.state = .finishing := hx.disciplined.mp hopen
      split
      · exact careful_udp_open hs hopen hst (checkUdpSocket_leaves e s).1
      · exact careful_stay (hs ▸ hx)
    · rename_i s hs
      rw [hs] at hx hopen
      exact careful_tcp hs
        (Tcp.checkTcpSocket_careful abi t (by simpa [Session.socket] using hopen) hx)

theorem packetVisit_careful (abi : Abi) (e : PacketEnv) (p : Packet) :
    Careful x (packetVisit abi e p x) := by
  refine packetVisit_cases abi e p x ?_ ?_ ?_ ?_
  · exact careful_stay hx
  · intro q s _ hs
    rw [hs] at hx
    exact careful_icmp hs hx (forwardIcmp_leaves e.now e.send q s)
  · intro q s _ hs hst
    rw [hs] at hx
    have hopen : 0 ≤ s.socket := hx.disciplined.mpr (.inl hst)
    exact careful_udp_open hs hopen (.inl hst) (forwardUdp_leaves _ q s).1
  · intro q s _ hs
    rw [hs] at hx
    exact careful_tcp hs (Tcp.handleTcp_leaves abi e.tcp q.segment hx).careful

end

/-! ## The table -/

/-- The invariant: besides the discipline, what is held is open, and names are unique. -/
structure Held (l : Loop) : Prop where
  sound : ∀ x ∈ l.table, x.session.Sound
  distinct : (l.table.filterMap Entry.holds).Nodup
  opened : ∀ fd ∈ l.table.filterMap Entry.holds, fd ∈ l.opened
  named : Named l

/-- What a step keeps, with the invariant. -/
structure Kept (l : Loop) (r : Loop × List Out) : Prop where
  held : Held r.1
  forward : ∀ x ∈ l.table, ∀ y ∈ r.1.table, y.name = x.name → Forward x.session y.session
  freed : ∀ s, Out.freed s ∈ r.2 → s.socket = -1
  closes : (r.2.filterMap Out.closes).Nodup ∧ ∀ fd ∈ r.2.filterMap Out.closes, fd ∈ l.opened ∧
    fd ∉ r.1.opened

section

variable {l : Loop}

/-- A step that leaves the table, and closes nothing. -/
theorem Held.stay (h : Held l) {outs : List Out} (hcloses : outs.filterMap Out.closes = [])
    (hfreed : ∀ s, Out.freed s ∉ outs) : Kept l (l, outs) where
  held := h
  forward x hx y hy hname := by
    rw [h.named.eq hx hy hname]
    exact Forward.refl _
  freed s hs := absurd hs (hfreed s)
  closes := by simp [hcloses]

/-- The rule for passes: it is enough that each visit is careful. -/
theorem Held.pass (h : Held l) (f : Visit Entry Out)
    (hf : ∀ x ∈ l.table, Careful x (f x)) : Kept l (l.pass f) := by
  have hperm := sweep_perm (fun x hx => (hf x hx).keeps)
  have hnodup := hperm.nodup_iff.mpr h.distinct
  obtain ⟨hcloses, hholds, hapart⟩ := List.nodup_append.mp hnodup
  have hnamed : Named (l.pass f).1 := h.named.pass fun x hx y hy => ((hf x hx).left y hy).1
  refine ⟨⟨fun y hy => ?_, hholds, fun fd hfd => ?_, hnamed⟩,
    fun x hx y hy hname => ?_, fun s hs => ?_, hcloses, fun fd hfd => ⟨?_, ?_⟩⟩
  · obtain ⟨x, hx, hxy⟩ := mem_sweep.mp hy
    exact ((hf x hx).left y hxy).2.1
  · have hopen := h.opened fd (hperm.subset (List.mem_append_right _ hfd))
    refine List.mem_filter.mpr ⟨hopen, ?_⟩
    simpa using fun hclosed => hapart fd hclosed fd hfd rfl
  · obtain ⟨x', hx', hxy⟩ := mem_sweep.mp hy
    obtain ⟨hname', -, hforward⟩ := (hf x' hx').left y hxy
    rwa [h.named.eq hx' hx (hname.symm.trans hname')]
  · obtain ⟨x, hx, hxs⟩ := mem_sweep_out.mp hs
    exact (hf x hx).freed s hxs
  · exact h.opened fd (hperm.subset (List.mem_append_left _ hfd))
  · intro hopen
    exact of_decide_eq_true (List.mem_filter.mp hopen).2 hfd

/-- A new session with a descriptor that was not open. -/
theorem Held.create (h : Held l) {r : OpenResult} (hfresh : ∀ fd ∈ r.opens, fd ∉ l.opened)
    {s : Nat → Session × List Out} (hsocket : ∀ fd : Nat, (s fd).1.socket = fd)
    (hsound : ∀ fd, (s fd).1.Sound) (hcloses : ∀ fd, (s fd).2.filterMap Out.closes = [])
    (hfreed : ∀ fd t, Out.freed t ∉ (s fd).2) :
    Kept l (l.create r s) := by
  cases r with
  | failed => exact h.stay rfl (by simp)
  | leaked fd =>
    refine ⟨⟨h.sound, h.distinct, fun d hd => List.mem_cons_of_mem _ (h.opened d hd),
      h.named.create _ s⟩, fun x hx y hy hname => ?_, by simp [Loop.create], ?_⟩
    · rw [h.named.eq hx hy hname]
      exact Forward.refl _
    · have hnone : [Out.socket fd].filterMap Out.closes = [] := rfl
      simp [Loop.create, hnone]
  | ok fd =>
    have hheld : Entry.holds ⟨l.next, (s fd).1⟩ = some (fd : Int) := by
      rw [Entry.holds, hsocket, held_of_nonneg (Int.natCast_nonneg fd)]
    have hnew : (fd : Int) ∉ l.table.filterMap Entry.holds :=
      fun hmem => hfresh fd rfl (h.opened _ hmem)
    refine ⟨⟨?_, ?_, ?_, h.named.create _ s⟩, fun x hx y hy hname => ?_, ?_, ?_⟩
    · exact List.forall_mem_cons.mpr ⟨hsound fd, h.sound⟩
    · show ((_ :: l.table).filterMap Entry.holds).Nodup
      rw [List.filterMap_cons_some hheld]
      exact List.nodup_cons.mpr ⟨hnew, h.distinct⟩
    · show ∀ d ∈ (_ :: l.table).filterMap Entry.holds, d ∈ (fd : Int) :: l.opened
      rw [List.filterMap_cons_some hheld]
      exact List.forall_mem_cons.mpr ⟨List.mem_cons_self,
        fun d hd => List.mem_cons_of_mem _ (h.opened d hd)⟩
    · rcases List.mem_cons.mp hy with rfl | hy
      · exact absurd hname.symm (h.named.ne_next hx)
      · rw [h.named.eq hx hy hname]
        exact Forward.refl _
    · exact fun t ht => absurd ht (by simpa [Loop.create] using hfreed fd t)
    · have hnone : (Out.socket fd :: (s fd).2).filterMap Out.closes = [] := by
        simpa [Out.closes] using hcloses fd
      simp [Loop.create, hnone]

/-! ## The steps -/

/-- A packet for one session. -/
theorem Held.visit (h : Held l) {x : Entry} {f : Visit Entry Out}
    (hf : ∀ y ∈ l.table, y.name = x.name → Careful y (f y)) : Kept l (l.visit x f) := by
  refine h.pass _ fun y hy => ?_
  refine only_cases Entry.name x.name f y ?_ ?_
  · exact careful_stay (h.sound y hy)
  · exact hf y hy

section created

variable (e : PacketEnv) (name : Nat) (p : Packet) (fd : Nat)

theorem created_socket : (created e name p fd).1.socket = fd := by
  cases p with
  | icmp p => rfl
  | udp p => exact (forwardUdp_leaves ⟨e.now, e.send, e.tun⟩ p (newUdpSession e.now fd p)).1.socket
  | tcp p => rfl

theorem created_sound : (created e name p fd).1.Sound := by
  cases p with
  | icmp p => exact Int.natCast_nonneg fd
  | udp p =>
    have hleaves := (forwardUdp_leaves ⟨e.now, e.send, e.tun⟩ p (newUdpSession e.now fd p)).1
    exact udp_sound (Int.natCast_nonneg fd) (.inl rfl) hleaves
  | tcp p => exact Int.natCast_nonneg fd

theorem created_closes : (created e name p fd).2.filterMap Out.closes = [] := by
  cases p with
  | icmp p =>
    show ((forwardIcmp e.now e.send p (newIcmpSession e.now fd p)).2.map
      (Out.datagram name)).filterMap Out.closes = []
    rw [closes_datagram, (forwardIcmp_leaves e.now e.send p _).closes]
  | udp p =>
    show ((forwardUdp ⟨e.now, e.send, e.tun⟩ p (newUdpSession e.now fd p)).2.map
      (Out.datagram name)).filterMap
      Out.closes = []
    rw [closes_datagram, (forwardUdp_leaves ⟨e.now, e.send, e.tun⟩ p _).1.closes]
  | tcp p => rfl

theorem created_freed (t : Session) : Out.freed t ∉ (created e name p fd).2 := by
  cases p <;> simp [created]

end created

theorem step_kept (c : Config) (h : Held l) (i : Input) (hfresh : Fresh l i) :
    Kept l (step c l i) := by
  cases i with
  | monitor e =>
    have hcount : Held { l with sessions := count l.table } :=
      ⟨h.sound, h.distinct, h.opened, ⟨h.named.unique, h.named.next⟩⟩
    have hpass :=
      hcount.pass (monitorVisit c.abi e) fun x hx => monitorVisit_careful (h.sound x hx) c.abi e
    exact ⟨hpass.held, hpass.forward, hpass.freed, hpass.closes⟩
  | check e => exact h.pass _ fun x hx => checkVisit_careful (h.sound x hx) _ _ e
  | packet e p =>
    show Kept l (handleIp c e p l)
    refine handleIp_cases c e p l ?_ ?_ ?_ ?_
    · exact fun _ => h.stay rfl (by simp)
    · exact fun _ _ _ _ => h.stay rfl (by simp)
    · exact fun x _ _ => h.visit fun y hy _ => packetVisit_careful (h.sound y hy) c.abi e p
    · exact fun _ _ _ =>
        h.create hfresh (created_socket e _ p) (created_sound e _ p) (created_closes e _ p)
          (created_freed e _ p)
  | socket name e t =>
    refine h.pass _ fun x hx => ?_
    refine only_cases Entry.name name (socketVisit c.abi e t) x ?_ ?_
    · exact careful_stay (h.sound x hx)
    · exact fun _ => socketVisit_careful (h.sound x hx) c.abi e t
  | allowed e => exact h.pass _ fun x hx => allowedVisit_careful (h.sound x hx) e
  | clear => exact h.pass _ fun x _ => clearVisit_careful x

/-- In every run whose `socket()` calls return descriptors that are not open, every step
keeps the discipline of states and descriptors. -/
theorem run_disciplined (c : Config) (is : List Input) (h : Along (step c) Fresh empty is) :
    Along (step c) (Discipline c) empty is := by
  have hempty : Held empty := ⟨by simp [empty], by simp [empty], by simp [empty], empty_named⟩
  refine along_of_invariant (step c) Fresh (Discipline c) Held ?_ is empty hempty h
  intro l i hl hi
  have hkept := step_kept c hl i hi
  exact ⟨⟨fun x hx => (hkept.held.sound x hx).disciplined, hkept.held.distinct, hkept.forward,
    hkept.freed, hkept.closes⟩, hkept.held⟩

/-- A DNS query and its answer, a TCP session that is reset, and the checks that close and
delete them; the descriptor 5 is used again. -/
theorem run_disciplined_reused :
    Along (step (plainConfig 10 true)) (Discipline (plainConfig 10 true)) empty
      [.packet (plainEnv 5) (udpPacket client 4000 (server 1) 53 [1]),
        .socket 0 (datagramEvent [2]) Tcp.writable,
        .packet (plainEnv 6) (tcpPacket 22 (Tcp.synPacket [])), .check fun _ => answerAt 1,
        .packet (plainEnv 5) (icmpPacket (server 2)), .socket 1 (datagramEvent []) Tcp.failed,
        .check fun _ => answerAt 400, .check fun _ => answerAt 800, .clear] :=
  run_disciplined _ _ (by decide +kernel)

end

end PdaNetClient.Table
