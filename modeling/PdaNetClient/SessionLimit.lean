import PdaNetClient.SessionTable
import PdaNetClient.TcpClosed

/-!
# The limit on the number of sessions

The loop counts its sessions at the top and hands the count to `handle_ip`, which drops
what would open one more at the limit. A packet that makes a session active adds one to
the count, everything else adds none; so the limit is kept exactly by the runs in which
the test of `handle_ip` stops every such packet while the table is full.
-/
namespace PdaNetClient.Table

open Runs Sweep Datagram

set_option autoImplicit false

/-- The packet makes one more session active: it opens one that survives the first send,
or it takes a closed TCP session back to LISTEN. -/
def Activates (e : PacketEnv) (l : Loop) : Packet → Prop
  | .icmp p => p.type = icmpEcho ∧ l.table.find? (matchesIcmp p) = none ∧ (∃ fd, e.sock = .ok fd) ∧
      e.send.fatal = false
  | .udp p => l.table.find? (matchesUdp p) = none ∧ (∃ fd, e.sock = .ok fd) ∧
      (dhcpPorts p ∧ isDhcp p.data ∨ e.send.fatal = false)
  | .tcp p => match l.table.find? (matchesTcp p) with
    | some x => ∃ s, x.session = .tcp s ∧ Tcp.Revives e.tcp p.segment s
    | none => p.segment.urg = false ∧ p.segment.syn = true ∧ ∃ fd, e.sock = .ok fd

/-- What makes a session active in a full table is dropped. -/
def Admits (c : Config) (l : Loop) : Input → Prop
  | .packet e p => Activates e l p → c.maxsessions ≤ count l.table → limited c p l = true
  | _ => True

/-- The three ways past the test of `handle_ip` in a full table: the count was taken
before the table was full, a DNS query that is not forwarded counts as known, and a
closed session is taken back by a packet that is not a SYN. -/
theorem not_limited_cases {c : Config} {e : PacketEnv} {l : Loop} {p : Packet} (h : Activates e l p)
    (hlimit : limited c p l = false) :
    l.sessions < c.maxsessions ∨ (∃ q, p = .udp q ∧ q.dest = 53 ∧ c.fwd53 = false) ∨
      ∃ q, p = .tcp q ∧ ((l.table.find? (matchesTcp q)).isSome ∧ q.segment.syn = false) := by
  by_cases hcount : c.maxsessions ≤ l.sessions
  · right
    cases p with
    | icmp p => simp [limited, hcount] at hlimit
    | udp p =>
      left
      have hnone := h.1
      simpa [limited, hcount, hasUdpSession, hnone] using hlimit
    | tcp p =>
      right
      have hsyn : p.segment.syn = false := by simpa [limited, hcount] using hlimit
      refine ⟨p, rfl, ?_, hsyn⟩
      cases hfind : l.table.find? (matchesTcp p) with
      | some x => rfl
      | none => simp [Activates, hfind, hsyn] at h
  · exact .inl (by omega)

/-! ## Visits -/

/-- A visit that makes no session active. -/
def KeepsInactive (x : Entry) (r : Option Entry × List Out) : Prop :=
  ∀ y, r.1 = some y → y.session.active = true → x.session.active = true

section

variable {x : Entry}

theorem keepsInactive_stay (outs : List Out) : KeepsInactive x (some x, outs) := by
  rintro y ⟨⟩
  exact id

theorem keepsInactive_gone (outs : List Out) : KeepsInactive x (none, outs) :=
  fun y hy => by cases hy

theorem KeepsInactive.deleteIf {r : Option Entry × List Out} (h : KeepsInactive x r) (del : Bool) :
    KeepsInactive x (deleteIf del r) := by
  cases del with
  | false => exact h
  | true => exact keepsInactive_gone _

theorem keepsInactive_tcp {s : Tcp.Session} (hs : x.session = .tcp s)
    {r : Tcp.Session × List Tcp.Out} (hr : s.state.closed → r.1.state.closed) :
    KeepsInactive x (tcpVisit x r) := by
  rintro y ⟨⟩ hactive
  simp only [Session.active, hs, decide_eq_true_eq] at hactive ⊢
  have hopen : ¬ r.1.state.closed := not_or.mpr hactive
  exact not_or.mp fun hc => hopen (hr hc)

theorem keepsInactive_udp {s : UdpSession} (hs : x.session = .udp s)
    {r : UdpSession × List Datagram.Out} (hr : r.1.state = .active → s.state = .active) :
    KeepsInactive x (udpVisit x r) := by
  rintro y ⟨⟩ hactive
  simp only [Session.active, hs, decide_eq_true_eq] at hactive ⊢
  exact hr hactive

theorem udpLeaves_active {s : UdpSession} {r : UdpSession × List Datagram.Out} (h : UdpLeaves s r)
    (hactive : r.1.state = .active) : s.state = .active := by
  rcases h.state with hstay | hfinish
  · exact hstay ▸ hactive
  · simp [hfinish] at hactive

theorem keepsInactive_icmp {s : IcmpSession} (hs : x.session = .icmp s)
    {r : IcmpSession × List Datagram.Out} (hr : s.stop = true → r.1.stop = true) :
    KeepsInactive x (icmpVisit x r) := by
  rintro y ⟨⟩ hactive
  simp only [Session.active, hs, Bool.not_eq_true'] at hactive ⊢
  cases hstop : s.stop with
  | false => rfl
  | true => simp [hr hstop] at hactive

theorem monitorVisit_inactive (abi : Abi) (e : Nat → Tcp.MonitorEnv) (x : Entry) :
    KeepsInactive x (monitorVisit abi e x) := by
  unfold monitorVisit
  split
  · rename_i s hs
    exact keepsInactive_tcp hs (Tcp.step_quiet abi s (.monitor (e x.name)) trivial).1
  · exact keepsInactive_stay _

theorem checkVisit_inactive (sessions maxsessions : Nat) (e : Nat → CheckAnswer) (x : Entry) :
    KeepsInactive x (checkVisit sessions maxsessions e x) := by
  unfold checkVisit
  simp only
  split
  · rename_i s hs
    unfold checkIcmpSession
    split
    · exact keepsInactive_gone _
    · exact (keepsInactive_icmp hs id).deleteIf _
  · rename_i s hs
    refine checkUdpSession_cases ⟨(e x.name).now, (e x.name).now2, sessions, maxsessions⟩
      s ?_ ?_ ?_ ?_
    · exact fun _ => (keepsInactive_udp hs id).deleteIf _
    · exact fun _ _ => (keepsInactive_udp hs id).deleteIf _
    · exact fun _ _ => (keepsInactive_udp hs id).deleteIf _
    · rintro t del rfl _
      exact (keepsInactive_udp hs (by simp)).deleteIf _
  · rename_i s hs
    have hquiet := Tcp.step_quiet .arm64V8a s
      (.check ⟨(e x.name).now, (e x.name).now2, sessions, maxsessions, (e x.name).rstOk⟩) trivial
    exact (keepsInactive_tcp hs hquiet.1).deleteIf _

theorem allowedVisit_inactive (e : Nat → Bool) (x : Entry) :
    KeepsInactive x (allowedVisit e x) := by
  unfold allowedVisit
  split
  · rename_i s hs
    exact keepsInactive_icmp hs fun _ => rfl
  · rename_i s hs
    split
    · exact keepsInactive_udp hs (by simp)
    · exact keepsInactive_gone _
    · exact keepsInactive_stay _
  · rename_i s hs
    split
    · exact keepsInactive_tcp hs fun _ => Tcp.writeRst_closed _ _
    · exact keepsInactive_stay _

theorem socketVisit_inactive (abi : Abi) (e : SocketEnv) (t : Tcp.SocketEnv) (x : Entry) :
    KeepsInactive x (socketVisit abi e t x) := by
  unfold socketVisit
  split
  · exact keepsInactive_stay _
  · split
    · rename_i s hs
      exact keepsInactive_icmp hs (checkIcmpSocket_leaves e s).stop
    · rename_i s hs
      split
      · exact keepsInactive_udp hs (udpLeaves_active (checkUdpSocket_leaves e s).1)
      · exact keepsInactive_stay _
    · rename_i s hs
      exact keepsInactive_tcp hs (Tcp.checkTcpSocket_closed abi t s)

/-- Only a packet that takes a closed TCP session back makes a session active. -/
theorem packetVisit_inactive (abi : Abi) (e : PacketEnv) (p : Packet) (x : Entry)
    (hno : ∀ q s, p = .tcp q → x.session = .tcp s → ¬ Tcp.Revives e.tcp q.segment s) :
    KeepsInactive x (packetVisit abi e p x) := by
  refine packetVisit_cases abi e p x ?_ ?_ ?_ ?_
  · exact keepsInactive_stay _
  · intro q s _ hs
    exact keepsInactive_icmp hs (forwardIcmp_leaves e.now e.send q s).stop
  · intro q s _ hs _
    exact keepsInactive_udp hs (udpLeaves_active (forwardUdp_leaves _ q s).1)
  · intro q s hp hs
    refine keepsInactive_tcp hs fun hclosed => ?_
    exact (Tcp.handleTcp_closed_iff abi e.tcp q.segment s hclosed).mpr (hno q s hp hs)

theorem KeepsInactive.only {name : Nat} {f : Visit Entry Out}
    (h : x.name = name → KeepsInactive x (f x)) :
    KeepsInactive x (only Entry.name name f x) := by
  refine only_cases Entry.name name f x ?_ ?_
  · exact keepsInactive_stay _
  · exact h

end

/-! ## The count -/

/-- A packet adds one to the count, or nothing. -/
structure Counts (p : Prop) (l r : Loop) : Prop where
  adds : p → count r.table = count l.table + 1
  stays : ¬ p → count r.table ≤ count l.table

section

variable {l : Loop}

theorem pass_count {f : Visit Entry Out} (hf : ∀ x ∈ l.table, KeepsInactive x (f x)) :
    count (l.pass f).1.table ≤ count l.table := countP_le hf

/-- A packet that adds nothing. -/
theorem counts_of_le {p : Prop} {r : Loop} (hno : ¬ p)
    (h : count r.table ≤ count l.table) : Counts p l r :=
  ⟨fun h => absurd h hno, fun _ => h⟩

/-- A new session counts if its first packet leaves it active. -/
theorem create_counts {r : OpenResult} {s : Nat → Session × List Out} {p : Prop}
    (hs : ∀ fd, (s fd).1.active = true ↔ p) :
    Counts ((∃ fd, r = .ok fd) ∧ p) l (l.create r s).1 := by
  cases r with
  | failed => exact counts_of_le (by simp) (Nat.le_refl _)
  | leaked fd => exact counts_of_le (by simp) (Nat.le_refl _)
  | ok fd =>
    have hcount : count (l.create (.ok fd) s).1.table = count l.table + if (s fd).1.active =
        true then 1 else 0 :=
      List.countP_cons
    refine ⟨fun h => ?_, fun h => ?_⟩
    · rw [hcount, if_pos ((hs fd).mpr h.2)]
    · have hdead : ¬ (s fd).1.active = true := fun hactive => h ⟨⟨fd, rfl⟩, (hs fd).mp hactive⟩
      rw [hcount, if_neg hdead, Nat.add_zero]

theorem Counts.congr {p q : Prop} {r : Loop} (h : Counts p l r) (hpq : q ↔ p) : Counts q l r :=
  ⟨fun hq => h.adds (hpq.mp hq), fun hq => h.stays fun hp => hq (hpq.mpr hp)⟩

theorem forwardUdp_active (e : UdpEnv) (p : UdpPacket) {s : UdpSession} (hs : s.state = .active) :
    (forwardUdp e p s).1.state = .active ↔ dhcpPorts p ∧ isDhcp p.data ∨ e.send.fatal = false := by
  have hsend : (sendUdp e p s).1.state = .active ↔ e.send.fatal = false := by
    unfold sendUdp
    simp only
    split
    · rename_i hall
      simp [hs, hall, SendtoResult.fatal]
    · split <;> simp_all
  unfold forwardUdp
  by_cases hports : dhcpPorts p
  · by_cases hdhcp : isDhcp p.data
    · by_cases hop : p.data[0]? = some 1 <;> simp [checkDhcp, hports, hdhcp, hop, hs]
    · simpa [checkDhcp, hports, hdhcp] using hsend
  · simpa [hports] using hsend

theorem handleIcmp_counts (e : PacketEnv) (p : IcmpPacket) :
    Counts (Activates e l (.icmp p)) l (handleIcmp e p l).1 := by
  unfold handleIcmp
  split
  · rename_i htype
    exact counts_of_le (fun h => htype h.1) (Nat.le_refl _)
  · rename_i htype
    have htype : p.type = icmpEcho := Decidable.not_not.mp htype
    split
    · rename_i x hfind
      refine counts_of_le (fun h => by simpa [hfind] using h.2.1) ?_
      exact pass_count fun y _ => KeepsInactive.only fun _ =>
        packetVisit_inactive .arm64V8a e (.icmp p) y (by simp)
    · rename_i hfind
      have hcreate := create_counts (l := l) (r := e.sock) (p := e.send.fatal = false)
        (s := fun fd =>
          let r := forwardIcmp e.now e.send p (newIcmpSession e.now fd p)
          (.icmp r.1, r.2.map (.datagram l.next)))
        fun fd => by simp [Session.active, forwardIcmp, newIcmpSession]
      exact hcreate.congr (by simp [Activates, htype, hfind])

theorem handleUdp_counts (e : PacketEnv) (p : UdpPacket) :
    Counts (Activates e l (.udp p)) l (handleUdp e p l).1 := by
  unfold handleUdp
  split
  · rename_i x hfind
    refine counts_of_le (fun h => by simpa [hfind] using h.1) ?_
    exact pass_count fun y _ => KeepsInactive.only fun _ =>
      packetVisit_inactive .arm64V8a e (.udp p) y (by simp)
  · rename_i hfind
    have hcreate :=
      create_counts (l := l) (r := e.sock) (p := dhcpPorts p ∧ isDhcp p.data ∨ e.send.fatal = false)
      (s := fun fd =>
        let r := forwardUdp ⟨e.now, e.send, e.tun⟩ p (newUdpSession e.now fd p)
        (.udp r.1, r.2.map (.datagram l.next)))
      fun fd => by simpa [Session.active]
        using forwardUdp_active ⟨e.now, e.send, e.tun⟩ p (s := newUdpSession e.now fd p) rfl
    exact hcreate.congr (by simp [Activates, hfind])

theorem active_tcp_iff (s : Tcp.Session) : (Session.tcp s).active = true ↔ ¬ s.state.closed := by
  simp [Session.active, Tcp.State.closed]

theorem handleTcp_counts (h : Named l) (abi : Abi) (e : PacketEnv) (p : TcpPacket) :
    Counts (Activates e l (.tcp p)) l (handleTcp abi e p l).1 := by
  unfold handleTcp
  split
  · rename_i x hfind
    have hx := List.mem_of_find?_eq_some hfind
    have hmatch := List.find?_some hfind
    obtain ⟨name, session⟩ := x
    cases session with
    | tcp s =>
      have hactivates : Activates e l (.tcp p) ↔ Tcp.Revives e.tcp p.segment s := by
        simp [Activates, hfind]
      refine ⟨fun hrevives => ?_, fun hno => ?_⟩
      · -- a closed session, and no other of its name, becomes active
        have hclosed := (hactivates.mp hrevives).1
        have hopen : ¬ (Tcp.handleTcp abi e.tcp p.segment s).1.state.closed := fun hc =>
          (Tcp.handleTcp_closed_iff abi e.tcp p.segment s hclosed).mp hc (hactivates.mp hrevives)
        refine countP_only h.unique hx ?_ rfl ((active_tcp_iff _).mpr hopen)
        exact Bool.eq_false_iff.mpr fun hactive => (active_tcp_iff s).mp hactive hclosed
      · refine pass_count fun y hy => KeepsInactive.only fun hname => ?_
        rw [h.eq hx hy hname]
        refine keepsInactive_tcp rfl fun hclosed => ?_
        exact (Tcp.handleTcp_closed_iff abi e.tcp p.segment s hclosed).mpr fun hr =>
          hno (hactivates.mpr hr)
    | icmp s => simp [matchesTcp] at hmatch
    | udp s => simp [matchesTcp] at hmatch
  · rename_i hfind
    split
    · rename_i hurg
      exact counts_of_le (by simp [Activates, hfind, hurg]) (Nat.le_refl _)
    · rename_i hurg
      split
      · rename_i hsyn
        have hcreate := create_counts (l := l) (r := e.sock) (p := True)
          (s := fun fd => (.tcp (Tcp.newSession (tcpSyn e p fd) p.segment), []))
          fun fd => by simp [active_tcp_iff]
        exact hcreate.congr (by simp [Activates, hfind, hurg, hsyn])
      · rename_i hsyn
        exact counts_of_le (by simp [Activates, hfind, hsyn]) (Nat.le_refl _)

/-! ## Runs -/

theorem handleIp_counts (h : Named l) (c : Config) (e : PacketEnv) (p : Packet) :
    Counts (Activates e l p ∧ limited c p l = false) l (handleIp c e p l).1 := by
  unfold handleIp
  split
  · rename_i hlimit
    exact counts_of_le (by simp [hlimit]) (Nat.le_refl _)
  · rename_i hlimit
    have hlimit : limited c p l = false := Bool.eq_false_iff.mpr hlimit
    cases p with
    | icmp p => exact (handleIcmp_counts e p).congr (and_iff_left hlimit)
    | udp p => exact (handleUdp_counts e p).congr (and_iff_left hlimit)
    | tcp p => exact (handleTcp_counts h c.abi e p).congr (and_iff_left hlimit)

/-- Within the limit, a step stays within it exactly if it admits nothing to a full table. -/
theorem step_within_iff (c : Config) (h : Named l) (i : Input)
    (hl : count l.table ≤ c.maxsessions) :
    count (step c l i).1.table ≤ c.maxsessions ↔ Admits c l i := by
  cases i with
  | packet e p =>
    have hcounts := handleIp_counts h c e p
    show count (handleIp c e p l).1.table ≤ c.maxsessions ↔ _
    by_cases hadds : Activates e l p ∧ limited c p l = false
    · rw [hcounts.adds hadds]
      constructor
      · intro hle _ hfull
        omega
      · intro hadmits
        by_contra hmore
        have hdropped := hadmits hadds.1 (by omega)
        simp [hadds.2] at hdropped
    · refine iff_of_true ((hcounts.stays hadds).trans hl) fun hactivates _ => ?_
      exact Bool.eq_true_of_not_eq_false fun hlimit => hadds ⟨hactivates, hlimit⟩
  | monitor e =>
    have hpass : count (monitorAll c e l).1.table ≤ count l.table :=
      pass_count (l := { l with sessions := count l.table }) fun x _ =>
        monitorVisit_inactive c.abi e x
    exact iff_of_true (hpass.trans hl) trivial
  | check e =>
    exact iff_of_true ((pass_count fun x _ => checkVisit_inactive _ _ e x).trans hl) trivial
  | socket name e t =>
    have hpass := pass_count (l := l) (f := only Entry.name name (socketVisit c.abi e t))
      fun x _ => KeepsInactive.only fun _ => socketVisit_inactive c.abi e t x
    exact iff_of_true (hpass.trans hl) trivial
  | allowed e =>
    exact iff_of_true ((pass_count fun x _ => allowedVisit_inactive e x).trans hl) trivial
  | clear => exact iff_of_true ((pass_count fun x _ => keepsInactive_gone _).trans hl) trivial

/-- The number of active sessions stays within the limit along a run if and only if the
test of `handle_ip` drops whatever would make a session active while the table is full. -/
theorem run_within_limit_iff (c : Config) (is : List Input) :
    Always (step c) (fun l => count l.table ≤ c.maxsessions) empty is ↔
    Along (step c) (Admits c) empty is :=
  always_iff_of_invariant (step c) (Admits c) (fun l => count l.table ≤ c.maxsessions) Named
    (fun _ i h => step_named c h i) (fun _ i h hl => step_within_iff c h i hl) empty is empty_named
      (Nat.zero_le _)

/-- Two packets are read in one burst, with the count of the top of the loop. -/
theorem burst_exceeds_limit :
    ¬ Always (step (plainConfig 1 true))
    (fun l => count l.table ≤ (plainConfig 1 true).maxsessions) empty
      [.monitor fun _ => Tcp.plainMonitor, .packet (plainEnv 5) (icmpPacket (server 1)),
        .packet (plainEnv 6) (icmpPacket (server 2))] := by
  decide +kernel

end

end PdaNetClient.Table
