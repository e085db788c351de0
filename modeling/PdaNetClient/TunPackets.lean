import PdaNetClient.PacketDecode
import PdaNetClient.TcpReadSize

/-!
# What is written to tun

The packets that TCP sessions write in a run on any buffers. Each of them answers the SYN of
a buffer that has been read before: the same version, the addresses and ports exchanged,
and no more data than the MSS of that SYN. If it is no longer than a length field can say,
a receiver reads what was written, with right checksums.
-/
namespace PdaNetClient.Tcp

open Runs

set_option autoImplicit false

/-! ## One session -/

/-- The packet goes from the remote end of the session to its client, with no more data than the
client takes in one segment. -/
structure InFlow (s : Session) (p : TunPacket) : Prop where
  version : p.version = s.version
  saddr : p.saddr = s.daddr
  daddr : p.daddr = s.saddr
  source : p.source = s.dest
  dest : p.dest = s.source
  data : p.data.length ≤ s.mss

def Wrote (s : Session) : Out → Prop
  | .tun _ p _ => InFlow s p
  | _ => True

def AllWrote (s : Session) (outs : List Out) : Prop := ∀ o ∈ outs, Wrote s o

section

variable {s t : Session}

theorem inFlow_of_frozen (h : t.frozen = s.frozen) {p : TunPacket}
    (hp : InFlow t p) : InFlow s p := by
  simp only [Session.frozen, Session.fixed, Session.negotiated, Prod.mk.injEq] at h
  obtain ⟨⟨hversion, hsaddr, hsource, hdaddr, hdest, -⟩, hmss, -⟩ := h
  exact ⟨hp.version.trans hversion, hp.saddr.trans hdaddr, hp.daddr.trans hsaddr,
    hp.source.trans hdest, hp.dest.trans hsource, hmss ▸ hp.data⟩

theorem wrote_tun (h : t.frozen = s.frozen) {data : Bytes} (hdata : data.length ≤ t.mss)
    {st : State} {syn ack fin rst ok : Bool} :
    Wrote s (.tun st (writeTcp t data syn ack fin rst) ok) :=
  inFlow_of_frozen h ⟨rfl, rfl, rfl, rfl, rfl, hdata⟩

theorem AllWrote.nil : AllWrote s [] := fun _ ho => by cases ho

theorem AllWrote.cons {o : Out} {outs : List Out} (ho : Wrote s o) (h : AllWrote s outs) :
    AllWrote s (o :: outs) :=
  List.forall_mem_cons.mpr ⟨ho, h⟩

theorem AllWrote.append {outs outs' : List Out} (h : AllWrote s outs) (h' : AllWrote s outs') :
    AllWrote s (outs ++ outs') :=
  fun o ho => (List.mem_append.mp ho).elim (h o) (h' o)

/-- The write that most steps end with. -/
theorem allWrote_tun (h : t.frozen = s.frozen) {st : State} {syn ack fin rst ok : Bool} :
    AllWrote s [.tun st (writeTcp t [] syn ack fin rst) ok] :=
  .cons (wrote_tun h (Nat.zero_le _)) .nil

theorem AllWrote.of_frozen {outs : List Out} (h : t.frozen = s.frozen)
    (hall : AllWrote t outs) : AllWrote s outs := by
  intro o ho
  have hwrote := hall o ho
  cases o with
  | tun st p ok => exact inFlow_of_frozen h hwrote
  | _ => trivial

theorem writeRst_wrote (ok : Bool) (h : t.frozen = s.frozen) : AllWrote s (writeRst ok t).2 := by
  refine writeRst_cases ok t ?_ ?_
  · exact fun _ => allWrote_tun (t := { t with remoteSeq := t.remoteSeq + 1 }) h
  · exact fun _ _ _ _ => allWrote_tun h

theorem handleFlags_wrote (e : PacketEnv) (p : Packet) (h : t.frozen = s.frozen) :
    AllWrote s (handleFlags e p t).2 := by
  refine handleFlags_cases e p t .nil .nil ?_ ?_ ?_ ?_
  · intro _ _ _ _
    refine handleFin_cases e t .nil ?_ ?_ ?_
    · exact fun _ _ => .nil
    · rintro u rfl _ _
      exact .cons trivial (allWrote_tun (s := s) (t := { t with remoteSeq := t.remoteSeq + 1 }) h)
    · rintro u rfl _
      exact .cons trivial (allWrote_tun (s := s) (t := { t with remoteSeq := t.remoteSeq + 1 }) h)
  · exact fun _ _ _ => .nil
  · exact fun _ _ => .nil
  · exact fun _ _ => writeRst_wrote _ h

theorem handleTcp_wrote (abi : Abi) (e : PacketEnv) (p : Packet) (s : Session) :
    AllWrote s (handleTcp abi e p s).2 := by
  refine handleTcp_cases abi e p s ?_ ?_ ?_ ?_ ?_
  · exact fun _ => .nil
  · exact fun _ _ _ _ _ _ => .nil
  · rintro t rfl _ _ _
    exact .cons trivial (writeRst_wrote (t := { s with hostname := packetHostname abi p s }) _ rfl)
  · exact fun _ _ _ _ _ _ _ => .cons trivial .nil
  · rintro t host rfl _ _
    refine handleSession_cases e p { s with hostname := host } ?_ ?_ ?_ ?_
    · exact fun _ => writeRst_wrote _ rfl
    · rintro t w rfl _ _ _
      exact writeRst_wrote (t := { s with hostname := host, time := e.now, sendWindow := w }) _ rfl
    · rintro t w rfl _ _
      exact handleFlags_wrote
        (t := { s with hostname := host, time := e.now, sendWindow := w }) e p rfl
    · rintro t w rfl _ _ _ _
      exact handleFlags_wrote e p (congrArg Prod.fst
        (queueTcp_steady p { s with hostname := host, time := e.now, sendWindow := w }))

theorem forwardData_wrote (abi : Abi) (e : SocketEnv) (s : Session) :
    AllWrote s (forwardData abi e s).2.2 := by
  refine forwardData_rule (fun _ _ outs => AllWrote s outs) abi e s [] ?_ ?_ .nil
  · exact fun _ _ _ h => h.append (.cons trivial .nil)
  · exact fun _ _ _ _ _ _ _ _ h _ _ _ _ => h.append (.cons trivial .nil)

theorem ackForwarded_wrote (e : SocketEnv) (fwd : Bool) (s : Session) :
    AllWrote s (ackForwarded e fwd s).2 := by
  refine ackForwarded_cases e fwd s ?_ ?_ ?_
  · exact fun _ => .nil
  · rintro t rfl _ _ _
    exact .cons trivial
      (allWrote_tun (s := s)
      (t := { s with recvWindow := getReceiveWindow s e.rcvbuf, remoteSeq := s.remoteSeq + 1 }) rfl)
  · rintro t rfl _ _
    exact allWrote_tun (s := s) (t := { s with recvWindow := getReceiveWindow s e.rcvbuf }) rfl

theorem handleEof_wrote (e : SocketEnv) (h : t.frozen = s.frozen)
    (hst : t.state = .established ∨ t.state = .closeWait) :
    AllWrote s (handleEof e t).2 := by
  refine handleEof_cases e t hst ?_ ?_ ?_
  · exact fun _ => (allWrote_tun h).append (.cons trivial .nil)
  · exact fun _ _ => (allWrote_tun h).append (.cons trivial .nil)
  · exact fun _ _ => (allWrote_tun h).append (.cons trivial .nil)

/-- The only writes with data: no more than what the read asked for. -/
theorem readSocket_wrote (e : SocketEnv) (s : Session) : AllWrote s (readSocket e s).2 := by
  unfold readSocket
  simp only
  split
  · rename_i hread
    split
    · split
      · exact .cons trivial (writeRst_wrote (t := { s with time := e.now }) _ rfl)
      · exact .cons trivial .nil
    · exact .cons trivial (handleEof_wrote e rfl hread.1)
    · rename_i bytes _ hrecv
      have hasked : bytes.length ≤ min (getSendWindow s).toNat s.mss := sockRecv_length hrecv
      have hdata : bytes.length ≤ s.mss := Nat.le_trans hasked (Nat.min_le_right _ _)
      exact .cons trivial
        (.cons (wrote_tun (s := s)
          (t := { s with time := e.now, received := s.received + bytes.length }) rfl hdata) .nil)
  · exact .nil

theorem checkTcpSocket_wrote (abi : Abi) (e : SocketEnv) (s : Session) :
    AllWrote s (checkTcpSocket abi e s).2 := by
  refine checkTcpSocket_cases abi e s ?_ ?_ ?_ ?_
  · exact fun _ => writeRst_wrote (t := { s with time := e.now }) _ rfl
  · intro _ hst _
    refine readReply_cases e s hst ?_ ?_ ?_
    · exact fun _ _ => .cons trivial (writeRst_wrote _ rfl)
    · exact fun _ _ _ => .cons trivial (writeRst_wrote _ rfl)
    · intro _ _ _
      refine .cons trivial fun o ho => ?_
      obtain ⟨b, rfl⟩ := drained_recv ho
      trivial
  · intro _ hst _
    refine handshake_cases e s hst ?_ ?_
    · rintro t rfl
      exact allWrote_tun (s := s) (t := { s with remoteSeq := s.remoteSeq + 1 }) rfl
    · rintro t rfl
      exact allWrote_tun (s := s) (t := { s with remoteSeq := s.remoteSeq + 1 }) rfl
  · intro _ _
    have hforward := forwardData_frozen abi e s
    have hack :=
      (ackForwarded_frozen e (forwardData abi e s).2.1 (forwardData abi e s).1).trans hforward
    exact ((forwardData_wrote abi e s).append
      ((ackForwarded_wrote e _ _).of_frozen hforward)).append
      ((readSocket_wrote e _).of_frozen hack)

theorem step_wrote (abi : Abi) (s : Session) (i : Input) : AllWrote s (step abi s i).2 := by
  cases i with
  | packet e p => exact handleTcp_wrote abi e p s
  | socket e => exact checkTcpSocket_wrote abi e s
  | monitor e =>
    refine monitorStep_cases abi e s .nil ?_
    rintro t ev outs ⟨ms, st, rfl, -, rfl | ⟨-, rfl⟩⟩
    · exact .nil
    · exact allWrote_tun (s := s) (t := { s with remoteSeq := s.remoteSeq - 1 }) rfl
  | check e =>
    have hclose : AllWrote s (if 0 ≤ s.socket then [.close s.socket] else []) := by
      split
      · exact .cons trivial .nil
      · exact .nil
    show AllWrote s (checkTcpSession e s).2.2
    refine checkTcpSession_cases e s ?_ ?_ ?_ ?_
    · exact fun _ => .nil
    · exact fun _ _ => .nil
    · exact fun _ _ _ _ _ _ => hclose
    · exact fun _ _ _ _ _ _ _ => .cons (wrote_tun rfl (Nat.zero_le _)) hclose

end

end PdaNetClient.Tcp

namespace PdaNetClient.Table

open Runs Sweep Datagram
open Tcp (TunPacket AllWrote InFlow)

set_option autoImplicit false

/-! ## The table -/

/-- The packet answers the segment `q`, with no more data than `q` allows. -/
structure Replies (q : TcpPacket) (p : TunPacket) : Prop where
  version : p.version = q.version
  saddr : p.saddr = q.daddr
  daddr : p.daddr = q.saddr
  source : p.source = q.dest
  dest : p.dest = q.source
  data : p.data.length ≤ q.mss

/-- The session of the SYN `q`. -/
structure AskedBy (q : TcpPacket) (s : Tcp.Session) : Prop where
  syn : q.segment.syn = true
  frozen : ∃ e fd, s.frozen = (Tcp.newSession (tcpSyn e q fd) q.segment).frozen

theorem AskedBy.replies {q : TcpPacket} {s : Tcp.Session} (h : AskedBy q s) {p : TunPacket}
    (hp : InFlow s p) : Replies q p := by
  obtain ⟨e, fd, hfrozen⟩ := h.frozen
  obtain ⟨hversion, hsaddr, hdaddr, hsource, hdest, hdata⟩ := Tcp.inFlow_of_frozen hfrozen hp
  exact ⟨hversion, hsaddr, hdaddr, hsource, hdest, hdata⟩

/-- What an output writes to tun for TCP. -/
def Out.tunPacket : Out → Option TunPacket
  | .tcp _ (.tun _ p _) => some p
  | .reset p _ => some p
  | _ => none

section

variable (seen : TcpPacket → Prop)

/-- The packet answers a SYN that was seen, or is the reset for a segment that was. -/
def Due (p : TunPacket) : Prop :=
  ∃ q, seen q ∧ (q.segment.syn = true ∧ Replies q p ∨ p = unknownReset q)

def AllDue (outs : List Out) : Prop := ∀ o ∈ outs, ∀ p ∈ o.tunPacket, Due seen p

/-- The sessions of the table are those of SYNs that were seen. -/
def Asked (x : Entry) : Prop := ∀ s, x.session = .tcp s → ∃ q, seen q ∧ AskedBy q s

structure Accounts (r : Option Entry × List Out) : Prop where
  left : ∀ y, r.1 = some y → Asked seen y
  outs : AllDue seen r.2

end

section

variable {seen : TcpPacket → Prop} {x : Entry} {l : Loop}

theorem allDue_nil : AllDue seen [] := fun _ ho => by cases ho

theorem AllDue.append {outs outs' : List Out} (h : AllDue seen outs) (h' : AllDue seen outs') :
    AllDue seen (outs ++ outs') :=
  fun o ho => (List.mem_append.mp ho).elim (h o) (h' o)

theorem allDue_single {o : Out} (h : o.tunPacket = none) : AllDue seen [o] := by
  intro o' ho p hp
  rw [List.mem_singleton.mp ho, h] at hp
  cases hp

theorem allDue_datagram (n : Nat) (outs : List Datagram.Out) :
    AllDue seen (outs.map (.datagram n)) := by
  intro o ho
  obtain ⟨d, -, rfl⟩ := List.mem_map.mp ho
  exact fun p hp => by cases hp

theorem accounts_stay (h : Asked seen x) : Accounts seen (some x, []) := by
  constructor
  · rintro y ⟨⟩
    exact h
  · exact allDue_nil

theorem accounts_gone {outs : List Out} (h : AllDue seen outs) : Accounts seen (none, outs) := by
  refine ⟨fun y hy => ?_, h⟩
  cases hy

theorem accounts_udp (r : UdpSession × List Datagram.Out) : Accounts seen (udpVisit x r) := by
  refine ⟨fun y hy s hs => ?_, allDue_datagram _ _⟩
  cases hy
  cases hs

theorem accounts_icmp (r : IcmpSession × List Datagram.Out) : Accounts seen (icmpVisit x r) := by
  refine ⟨fun y hy s hs => ?_, allDue_datagram _ _⟩
  cases hy
  cases hs

theorem accounts_tcp (h : Asked seen x) {s : Tcp.Session} (hs : x.session = .tcp s)
    {r : Tcp.Session × List Tcp.Out} (hfrozen : r.1.frozen = s.frozen) (hwrote : AllWrote s r.2) :
    Accounts seen (tcpVisit x r) := by
  obtain ⟨q, hq, hasked⟩ := h s hs
  refine ⟨fun y hy t ht => ?_, fun o ho p hp => ?_⟩
  · cases hy
    cases ht
    obtain ⟨e, fd, hborn⟩ := hasked.frozen
    exact ⟨q, hq, hasked.syn, e, fd, hfrozen.trans hborn⟩
  · obtain ⟨o', ho', rfl⟩ := List.mem_map.mp ho
    have hin := hwrote o' ho'
    cases o' with
    | tun st p' ok =>
      cases hp
      exact ⟨q, hq, .inl ⟨hasked.syn, hasked.replies hin⟩⟩
    | _ => cases hp

theorem Accounts.deleteIf {r : Option Entry × List Out} (h : Accounts seen r) (del : Bool) :
    Accounts seen (deleteIf del r) := by
  cases del with
  | false => exact h
  | true =>
    refine accounts_gone (h.outs.append ?_)
    cases r.1 with
    | none => exact allDue_nil
    | some y => exact allDue_single rfl

theorem Accounts.only {name : Nat} {f : Visit Entry Out} (hx : Asked seen x)
    (h : Accounts seen (f x)) :
    Accounts seen (only Entry.name name f x) := by
  refine only_cases Entry.name name f x ?_ ?_
  · exact accounts_stay hx
  · exact fun _ => h

theorem step_accounts (abi : Abi) (h : Asked seen x) {s : Tcp.Session} (hs : x.session = .tcp s)
    (i : Tcp.Input) :
    Accounts seen (tcpVisit x (Tcp.step abi s i)) :=
  accounts_tcp h hs (Tcp.step_frozen abi s i) (Tcp.step_wrote abi s i)

theorem monitorVisit_accounts (abi : Abi) (e : Nat → Tcp.MonitorEnv) (h : Asked seen x) :
    Accounts seen (monitorVisit abi e x) := by
  unfold monitorVisit
  split
  · exact step_accounts abi h ‹_› _
  · exact accounts_stay h

theorem checkVisit_accounts (abi : Abi) (sessions maxsessions : Nat) (e : Nat → CheckAnswer)
    (h : Asked seen x) :
    Accounts seen (checkVisit sessions maxsessions e x) := by
  unfold checkVisit
  simp only
  split
  · exact (accounts_icmp _).deleteIf _
  · exact (accounts_udp _).deleteIf _
  · rename_i s hs
    exact (step_accounts abi h hs (.check ⟨(e x.name).now, (e x.name).now2, sessions, maxsessions,
      (e x.name).rstOk⟩)).deleteIf _

theorem allowedVisit_accounts (e : Nat → Bool) (h : Asked seen x) :
    Accounts seen (allowedVisit e x) := by
  unfold allowedVisit
  split
  · exact accounts_icmp _
  · split
    · exact accounts_udp _
    · exact accounts_gone (allDue_single rfl)
    · exact accounts_stay h
  · rename_i s hs
    split
    · exact accounts_tcp h hs (congrArg Prod.fst (Tcp.writeRst_steady (e x.name) s))
        (Tcp.writeRst_wrote (e x.name) rfl)
    · exact accounts_stay h

theorem socketVisit_accounts (abi : Abi) (e : SocketEnv) (t : Tcp.SocketEnv) (h : Asked seen x) :
    Accounts seen (socketVisit abi e t x) := by
  unfold socketVisit
  split
  · exact accounts_stay h
  · split
    · exact accounts_icmp _
    · split
      · exact accounts_udp _
      · exact accounts_stay h
    · exact step_accounts abi h ‹_› _

theorem packetVisit_accounts (abi : Abi) (e : PacketEnv) (p : Packet) (h : Asked seen x) :
    Accounts seen (packetVisit abi e p x) := by
  refine packetVisit_cases abi e p x ?_ ?_ ?_ ?_
  · exact accounts_stay h
  · exact fun _ _ _ _ => accounts_icmp _
  · exact fun _ _ _ _ _ => accounts_udp _
  · exact fun _ _ _ hs => step_accounts abi h hs _

/-- What is in the table and what has been written, behind one step. -/
structure KeptDue (seen : TcpPacket → Prop) (r : Loop × List Out) : Prop where
  asked : ∀ x ∈ r.1.table, Asked seen x
  due : AllDue seen r.2

theorem pass_due {f : Visit Entry Out} (hf : ∀ x ∈ l.table, Accounts seen (f x)) :
    KeptDue seen (l.pass f) := by
  constructor
  · intro y hy
    obtain ⟨x, hx, hxy⟩ := mem_sweep.mp hy
    exact (hf x hx).left y hxy
  · intro o ho
    obtain ⟨x, hx, hxo⟩ := mem_sweep_out.mp ho
    exact (hf x hx).outs o hxo

theorem created_accounts (e : PacketEnv) (name : Nat) (p : Packet) (fd : Nat)
    (hseen : ∀ q, p = .tcp q → seen q) (hstarts : p.starts) :
    Asked seen ⟨name, (created e name p fd).1⟩ ∧ AllDue seen (created e name p fd).2 := by
  cases p with
  | icmp p =>
    refine ⟨fun s hs => ?_, allDue_datagram _ _⟩
    cases hs
  | udp p =>
    refine ⟨fun s hs => ?_, allDue_datagram _ _⟩
    cases hs
  | tcp q =>
    refine ⟨fun s hs => ?_, allDue_nil⟩
    cases hs
    exact ⟨q, hseen q rfl, hstarts.2, e, fd, rfl⟩

theorem handleIp_due (h : ∀ x ∈ l.table, Asked seen x) (c : Config) (e : PacketEnv) (p : Packet)
    (hseen : ∀ q, p = .tcp q → seen q) : KeptDue seen (handleIp c e p l) := by
  refine handleIp_cases c e p l ?_ ?_ ?_ ?_
  · exact fun _ => ⟨h, allDue_nil⟩
  · intro q hq _ _
    refine ⟨h, fun o ho => ?_⟩
    cases List.mem_singleton.mp ho
    rintro _ ⟨⟩
    exact ⟨q, hseen q hq, .inr rfl⟩
  · exact fun x _ _ => pass_due fun y hy => (packetVisit_accounts c.abi e p (h y hy)).only (h y hy)
  · intro _ _ hstarts
    cases e.sock with
    | failed => exact ⟨h, allDue_nil⟩
    | leaked fd => exact ⟨h, allDue_single rfl⟩
    | ok fd =>
      obtain ⟨hasked, hdue⟩ := created_accounts e l.next p fd hseen hstarts
      exact ⟨List.forall_mem_cons.mpr ⟨hasked, h⟩,
        (allDue_single (o := .socket fd) rfl).append hdue⟩

theorem step_due (c : Config) (h : ∀ x ∈ l.table, Asked seen x) (i : Input)
    (hseen : ∀ e q, i = .packet e (.tcp q) → seen q) :
    KeptDue seen (step c l i) := by
  cases i with
  | monitor e => exact pass_due fun x hx => monitorVisit_accounts c.abi e (h x hx)
  | check e => exact pass_due fun x hx => checkVisit_accounts c.abi _ _ e (h x hx)
  | packet e p => exact handleIp_due h c e p fun q hq => hseen e q (hq ▸ rfl)
  | socket name e t =>
    exact pass_due fun x hx => (socketVisit_accounts c.abi e t (h x hx)).only (h x hx)
  | allowed e => exact pass_due fun x hx => allowedVisit_accounts e (h x hx)
  | clear =>
    refine pass_due fun x _ => accounts_gone ?_
    split
    · exact allDue_single rfl
    · exact allDue_nil

theorem run_due (c : Config) (is : List Input) (h : ∀ x ∈ l.table, Asked seen x)
    (hseen : ∀ e q, .packet e (.tcp q) ∈ is → seen q) : KeptDue seen (run (step c) l is) := by
  induction is generalizing l with
  | nil => exact ⟨h, allDue_nil⟩
  | cons i is ih =>
    have hstep := step_due c h i fun e q hi => hseen e q (hi ▸ List.mem_cons_self ..)
    have hrest := ih hstep.asked fun e q hq => hseen e q (List.mem_cons_of_mem i hq)
    exact ⟨hrest.asked, hstep.due.append hrest.due⟩

end

end PdaNetClient.Table

namespace PdaNetClient.Ip

open Reading Runs Table Datagram OnesComplement
open Http (Memory memoryOf)
open Tcp (TunPacket)

set_option autoImplicit false

/-! ## On the wire -/

/-- A receiver reads what was written, and the checksums are right. -/
structure Legible (p : TunPacket) : Prop where
  read : ∀ fuel after, (readBack fuel (tunBytes p).length).value (memoryOf (tunBytes p) after) =
    some ⟨p.version, addrOf (addrKey p.version p.saddr), addrOf (addrKey p.version p.daddr),
      headerOf p, p.data⟩
  length : ∀ after, promisedLength p.version (memoryOf (tunBytes p) after) = (tunBytes p).length
  ipSum : p.version = 4 → Verifies (ipHeaderOf p)
  tcpSum : Verifies (receiverPseudoOf ipprotoTcp p.version (addrKey p.version p.saddr)
    (addrKey p.version p.daddr) (tcpLength p) ++ segmentOf p)

theorem legible {p : TunPacket} (hversion : p.version = 4 ∨ p.version = 6)
    (hsource : p.source < 2 ^ 16) (hdest : p.dest < 2 ^ 16)
    (hfit : (tunBytes p).length < 2 ^ 16) : Legible p where
  read fuel after := (tunBytes_read p fuel after hversion hsource hdest hfit).1
  length after := (tunBytes_read p 0 after hversion hsource hdest hfit).2
  ipSum := ipHeaderOf_verifies p
  tcpSum := segmentOf_verifies p (by rw [length_tunBytes] at hfit; omega)

theorem legible_due {q : TcpPacket} (hq : Fits (.tcp q)) {p : TunPacket}
    (hp : q.segment.syn = true ∧ Replies q p ∨ p = unknownReset q)
    (hfit : (tunBytes p).length < 2 ^ 16) : Legible p := by
  obtain ⟨hversion, ⟨hsource, hdest⟩, -⟩ := hq
  rcases hp with ⟨-, hreplies⟩ | rfl
  · exact legible (hreplies.version ▸ hversion) (hreplies.source ▸ hdest)
      (hreplies.dest ▸ hsource) hfit
  · exact legible (.inl rfl) hdest hsource hfit

/-- In every run on any buffers, what is written to tun for TCP answers a SYN that has been read,
within the MSS of that SYN, or is the reset for a segment that has been read; and it is legible, if
its length is less than 2 ^ 16. -/
theorem tun_answers_buffers (c : Config) (turns : Nat) (is : List RawInput)
    (r : Loop × List Table.Out) (hproper : ∀ i ∈ is, i.proper)
    (h : rawRun c turns empty is = some r) :
    ∀ o ∈ r.2, ∀ p ∈ o.tunPacket,
    Due (fun q => ∃ e b, .tun e b ∈ is ∧ b.Holds c.abi turns (.tcp q)) p ∧
      ((tunBytes p).length < 2 ^ 16 → Legible p) := by
  obtain ⟨js, hjs, hrun⟩ := rawRun_decodes c turns empty is r h
  have hseen : ∀ e q, .packet e (.tcp q) ∈ js →
      ∃ e b, .tun e b ∈ is ∧ b.Holds c.abi turns (.tcp q) := by
    intro e q hq
    obtain ⟨b, hb, hholds⟩ := hjs.held hproper hq
    exact ⟨e, b, hb, hholds⟩
  have hkept : KeptDue _ (run (step c) empty js) := run_due c js (fun x hx => by cases hx) hseen
  rw [hrun] at hkept
  intro o ho p hp
  obtain ⟨q, hq, hdue⟩ := hkept.due o ho p hp
  refine ⟨⟨q, hq, hdue⟩, fun hfit => ?_⟩
  obtain ⟨e, b, -, hholds⟩ := hq
  exact legible_due hholds.fits hdue hfit

/-- A SYN, the connection of its socket, and a segment of no session. -/
def answeredBytes : List RawInput :=
  let segment (port flags : UInt8) : Bytes :=
    [0x9C, port, 0, 22, 0, 0, 0, 1, 0, 0, 0, 0, 0x50, flags, 0xFF, 0xFF, 0, 0, 0, 0]
  [.tun (plainEnv 3) ⟨40, bufferOf (packet4 0x45 0 0 ipprotoTcp (segment 0x40 0x02))⟩,
    .loop (.socket 0 (datagramEvent []) Tcp.writable),
    .tun (plainEnv 4) ⟨40, bufferOf (packet4 0x45 0 0 ipprotoTcp (segment 0x41 0x10))⟩]

theorem tun_answers_buffers_two :
    let r := (rawRun (plainConfig 10 true) 0 empty answeredBytes).get (by decide +kernel)
    r.2.filterMap Out.tunPacket ≠ [] ∧ ∀ o ∈ r.2, ∀ p ∈ o.tunPacket,
      Due (fun q => ∃ e b, .tun e b ∈ answeredBytes ∧ b.Holds .arm64V8a 0 (.tcp q)) p ∧
        ((tunBytes p).length < 2 ^ 16 → Legible p) :=
  ⟨by decide +kernel, tun_answers_buffers (plainConfig 10 true) 0 answeredBytes _
    (by simp [answeredBytes, RawInput.proper])
    (Option.some_get _).symm⟩

end PdaNetClient.Ip
