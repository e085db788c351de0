import PdaNetClient.Descriptors
import PdaNetClient.SocketError

/-!
# Setting up a socket

The three functions that open a socket return early when a step behind `socket()` fails,
and leave the descriptor open. The table is left alone then, so that the descriptors of
the program and the sockets of the table part exactly at such a failure.
-/
namespace PdaNetClient.Table

open Runs Sweep Datagram

set_option autoImplicit false

inductive ConnectResult where
  | ok
  | inProgress
  | fail
  deriving DecidableEq, Repr

/-- What the calls answer: `socket()`, the callback `protect`, `fcntl` twice and `connect`. -/
structure OpenCalls where
  socket : Option Nat
  protect : Bool
  getfl : Bool
  setfl : Bool
  connect : ConnectResult
  deriving DecidableEq, Repr

/-- A call that opens or closes a descriptor. -/
inductive Call where
  | socket (fd : Nat)
  | close (fd : Nat)
  deriving DecidableEq, Repr

def Call.opens : Call → Option Nat
  | .socket fd => some fd
  | .close _ => none

def openTcpSocket (r : OpenCalls) : Int × List Call :=
  match r.socket with
  | none => (-1, [])
  | some fd =>
    if r.protect = false then (-1, [.socket fd])
    else if r.getfl = false ∨ r.setfl = false then (-1, [.socket fd])
    else if r.connect = .fail then (-1, [.socket fd])
    else (fd, [.socket fd])

/-- `socket()` and `protect_socket`, all that ICMP and UDP need. -/
def openProtected (r : OpenCalls) : Int × List Call :=
  match r.socket with
  | none => (-1, [])
  | some fd => if r.protect = false then (-1, [.socket fd]) else (fd, [.socket fd])

/-- A failure to set the options for broadcast and multicast is only logged. -/
def openUdpSocket (r : OpenCalls) : Int × List Call := openProtected r

def openIcmpSocket (r : OpenCalls) : Int × List Call := openProtected r

def openSocket (r : OpenCalls) : Packet → Int × List Call
  | .icmp _ => openIcmpSocket r
  | .udp _ => openUdpSocket r
  | .tcp _ => openTcpSocket r

/-- The descriptors that were obtained and not closed. -/
def stillOpen (calls : List Call) : List Nat :=
  (calls.filterMap Call.opens).filter fun fd => .close fd ∉ calls

/-- What the caller sees, and what is left open. -/
def OpenResult.of (o : Int × List Call) : OpenResult :=
  if 0 ≤ o.1 then .ok o.1.toNat
  else match stillOpen o.2 with
    | [] => .failed
    | fd :: _ => .leaked fd

/-- The packet is one for which the handlers open a socket. -/
def Opens (c : Config) (l : Loop) (p : Packet) : Prop :=
  limited c p l = false ∧ finds p l.table = none ∧
    match p with
    | .icmp p => p.type = icmpEcho
    | .udp _ => True
    | .tcp p => p.segment.urg = false ∧ p.segment.syn = true

/-- A step behind `socket()` fails. -/
def FailsLate (r : OpenCalls) (p : Packet) : Prop :=
  r.socket.isSome = true ∧ (r.protect = false ∨
    match p with
    | .tcp _ => r.getfl = false ∨ r.setfl = false ∨ r.connect = .fail
    | _ => False)

/-- The input with the socket that the calls give. -/
def attempt : Input × OpenCalls → Input
  | (.packet e p, r) => .packet { e with sock := .of (openSocket r p) } p
  | (i, _) => i

def attemptStep (c : Config) : Machine Loop (Input × OpenCalls) Out :=
  fun l i => step c l (attempt i)

/-- A setup that fails has closed what it opened, and the table is as it was. -/
def CleanSetup (c : Config) (l : Loop) : Input × OpenCalls → Prop
  | (.packet e p, r) => Opens c l p → (openSocket r p).1 = -1 →
      stillOpen (openSocket r p).2 = [] ∧ (attemptStep c l (.packet e p, r)).1.table = l.table
  | _ => True

/-- No setup fails behind `socket()`. -/
def NoLateFailure (c : Config) (l : Loop) : Input × OpenCalls → Prop
  | (.packet _ p, r) => Opens c l p → ¬ FailsLate r p
  | _ => True

/-- The descriptors of the program are the sockets of the table. -/
def Exact (l : Loop) : Prop := l.opened.Perm (l.table.filterMap Entry.holds)

instance (c : Config) (l : Loop) (p : Packet) : Decidable (Opens c l p) := by
  unfold Opens
  cases p <;> infer_instance

instance (r : OpenCalls) (p : Packet) : Decidable (FailsLate r p) := by
  unfold FailsLate
  cases p <;> infer_instance

instance (c : Config) (l : Loop) : (i : Input × OpenCalls) → Decidable (NoLateFailure c l i)
  | (.packet _ p, r) => inferInstanceAs (Decidable (Opens c l p → ¬ FailsLate r p))
  | (.monitor _, _) | (.check _, _) | (.socket _ _ _, _) | (.allowed _, _) | (.clear, _) =>
    inferInstanceAs (Decidable True)

instance (l : Loop) : Decidable (Exact l) := inferInstanceAs (Decidable (List.Perm _ _))

/-! ## One setup -/

/-- The three outcomes of a setup. -/
inductive Setup (r : OpenCalls) (p : Packet) : Int × List Call → Prop where
  | none (hsocket : r.socket = none) : Setup r p (-1, [])
  | late (fd : Nat) (hsocket : r.socket = some fd) (hlate : FailsLate r p) :
      Setup r p (-1, [.socket fd])
  | done (fd : Nat) (hsocket : r.socket = some fd) (hlate : ¬ FailsLate r p) :
      Setup r p (fd, [.socket fd])

theorem openProtected_setup (r : OpenCalls) (p : Packet)
    (hp : FailsLate r p ↔ r.socket.isSome = true ∧ r.protect = false) :
    Setup r p (openProtected r) := by
  cases hsocket : r.socket with
  | none => simpa only [openProtected, hsocket] using Setup.none hsocket
  | some fd =>
    simp only [openProtected, hsocket]
    split
    · rename_i hprotect
      exact .late fd hsocket (hp.mpr ⟨by simp [hsocket], hprotect⟩)
    · rename_i hprotect
      exact .done fd hsocket fun hlate => hprotect (hp.mp hlate).2

theorem openTcpSocket_setup (r : OpenCalls) (p : TcpPacket) :
    Setup r (.tcp p) (openTcpSocket r) := by
  cases hsocket : r.socket with
  | none => simpa only [openTcpSocket, hsocket] using Setup.none hsocket
  | some fd =>
    have hlate : FailsLate r (.tcp p) ↔
        r.protect = false ∨ r.getfl = false ∨ r.setfl = false ∨ r.connect = .fail := by
      simp [FailsLate, hsocket]
    simp only [openTcpSocket, hsocket]
    split
    · rename_i hprotect
      exact .late fd hsocket (hlate.mpr (.inl hprotect))
    · rename_i hprotect
      split
      · rename_i hflags
        exact .late fd hsocket (hlate.mpr (.inr (hflags.imp id .inl)))
      · rename_i hflags
        split
        · rename_i hconnect
          exact .late fd hsocket (hlate.mpr (.inr (.inr (.inr hconnect))))
        · rename_i hconnect
          refine .done fd hsocket fun h => ?_
          rcases hlate.mp h with h | h | h | h
          · exact hprotect h
          · exact hflags (.inl h)
          · exact hflags (.inr h)
          · exact hconnect h

theorem openSocket_setup (r : OpenCalls) (p : Packet) : Setup r p (openSocket r p) := by
  cases p with
  | icmp p => exact openProtected_setup r _ (by simp [FailsLate])
  | udp p => exact openProtected_setup r _ (by simp [FailsLate])
  | tcp p => exact openTcpSocket_setup r p

theorem stillOpen_socket (fd : Nat) : stillOpen [.socket fd] = [fd] := by
  simp [stillOpen, Call.opens, List.filterMap]

/-- A setup leaks if it fails behind `socket()`, and then the caller sees no descriptor. -/
theorem leaked_iff (r : OpenCalls) (p : Packet) :
    (∃ fd, OpenResult.of (openSocket r p) = .leaked fd) ↔ FailsLate r p := by
  have hsetup := openSocket_setup r p
  generalize openSocket r p = o at hsetup ⊢
  cases hsetup with
  | none hsocket =>
    refine iff_of_false ?_ fun hlate => by simpa [hsocket] using hlate.1
    simp [OpenResult.of, stillOpen]
  | late fd _ hlate =>
    refine iff_of_true ⟨fd, ?_⟩ hlate
    simp [OpenResult.of, stillOpen_socket]
  | done fd _ hlate =>
    refine iff_of_false ?_ hlate
    simp [OpenResult.of]

theorem clean_iff (r : OpenCalls) (p : Packet) :
    ((openSocket r p).1 = -1 → stillOpen (openSocket r p).2 = []) ↔ ¬ FailsLate r p := by
  have hsetup := openSocket_setup r p
  generalize openSocket r p = o at hsetup ⊢
  cases hsetup with
  | none hsocket => exact iff_of_true (fun _ => rfl) fun hlate => by simpa [hsocket] using hlate.1
  | late fd _ hlate => exact iff_of_false (by simp [stillOpen_socket]) (not_not.mpr hlate)
  | done fd _ hlate =>
    refine iff_of_true (fun hret => ?_) hlate
    have hret : (fd : Int) = -1 := hret
    omega

theorem open_fails (r : OpenCalls) (p : Packet) (h : (openSocket r p).1 = -1) :
    ∀ fd, OpenResult.of (openSocket r p) ≠ .ok fd := by
  intro fd
  rw [OpenResult.of, h]
  simp only [show ¬ (0 : Int) ≤ -1 by decide, if_false]
  split <;> simp

/-! ## The table -/

/-- What a packet does to the table: it sets up a socket for a new session, or visits the
sessions there are, with care for their descriptors. -/
inductive PacketStep (c : Config) (e : PacketEnv) (p : Packet) (l : Loop) :
    Loop × List Out → Prop where
  | creates (s : Nat → Session × List Out) (hopens : Opens c l p)
      (hsocket : ∀ fd : Nat, (s fd).1.socket = fd) :
    PacketStep c e p l (l.create e.sock s)
  | visits (f : Visit Entry Out) (hno : ¬ Opens c l p) (hcareful : ∀ x ∈ l.table, Careful x (f x)) :
    PacketStep c e p l (l.pass f)
  | stays (outs : List Out) (hno : ¬ Opens c l p) : PacketStep c e p l (l, outs)

section

variable {l : Loop}

theorem careful_only (h : Held l) {x : Entry} {f : Visit Entry Out}
    (hf : ∀ y ∈ l.table, Careful y (f y)) :
    ∀ y ∈ l.table, Careful y (only Entry.name x.name f y) := by
  intro y hy
  refine only_cases Entry.name x.name f y ?_ ?_
  · exact careful_stay (h.sound y hy)
  · exact fun _ => hf y hy

theorem opens_iff (c : Config) (l : Loop) (p : Packet) :
    Opens c l p ↔ limited c p l = false ∧ l.table.find? p.finds = none ∧ p.starts := by
  cases p <;> rfl

theorem handleIp_step (h : Held l) (c : Config) (e : PacketEnv) (p : Packet) :
    PacketStep c e p l (handleIp c e p l) := by
  refine handleIp_cases c e p l ?_ ?_ ?_ ?_
  · intro hno
    exact .stays [] fun hopens =>
      hno hopens.1 ((opens_iff c l p).mp hopens).2.1 ((opens_iff c l p).mp hopens).2.2
  · intro q _ _ hno
    exact .stays _ fun hopens => hno ((opens_iff c l p).mp hopens).2.2
  · intro x _ hfind
    refine .visits _ (fun hopens => ?_)
      (careful_only h fun y hy => packetVisit_careful (h.sound y hy) c.abi e p)
    exact Option.some_ne_none x (hfind.symm.trans ((opens_iff c l p).mp hopens).2.1)
  · intro hlimit hfind hstarts
    exact .creates _ ((opens_iff c l p).mpr ⟨hlimit, hfind, hstarts⟩) (created_socket e _ p)

/-- A pass that takes care of every descriptor closes those that the table gives up. -/
theorem Exact.pass (h : Exact l) (hheld : Held l) {f : Visit Entry Out}
    (hf : ∀ x ∈ l.table, Careful x (f x)) :
    Exact (l.pass f).1 := by
  have hperm := sweep_perm fun x hx => (hf x hx).keeps
  have hnodup := hperm.nodup_iff.mpr hheld.distinct
  obtain ⟨-, -, hapart⟩ := List.nodup_append.mp hnodup
  have hopened : l.opened.Perm ((sweep f l.table).2.filterMap Out.closes ++
      (sweep f l.table).1.filterMap Entry.holds) :=
    List.Perm.trans h hperm.symm
  have hfilter := hopened.filter fun fd => decide (fd ∉ (sweep f l.table).2.filterMap Out.closes)
  have hclosed : ((sweep f l.table).2.filterMap Out.closes).filter
      (fun fd => decide (fd ∉ (sweep f l.table).2.filterMap Out.closes)) = [] := by
    rw [List.filter_eq_nil_iff]
    simp
  have hkept : ((sweep f l.table).1.filterMap Entry.holds).filter
      (fun fd => decide (fd ∉ (sweep f l.table).2.filterMap Out.closes)) =
        (sweep f l.table).1.filterMap Entry.holds := by
    rw [List.filter_eq_self]
    exact fun fd hfd => decide_eq_true fun hclosed => hapart fd hclosed fd hfd rfl
  rw [List.filter_append, hclosed, hkept, List.nil_append] at hfilter
  exact hfilter

/-- A setup keeps the descriptors exact if and only if it does not leak. -/
theorem create_exact_iff (h : Exact l) (r : OpenResult) {s : Nat → Session × List Out}
    (hsocket : ∀ fd : Nat, (s fd).1.socket = fd) :
    Exact (l.create r s).1 ↔ ¬ ∃ fd, r = .leaked fd := by
  cases r with
  | failed => exact iff_of_true h (by simp)
  | leaked fd =>
    refine iff_of_false (fun hexact => ?_) (by simp)
    have hlen : l.opened.length + 1 = (l.table.filterMap Entry.holds).length := hexact.length_eq
    have hwas : l.opened.length = (l.table.filterMap Entry.holds).length := h.length_eq
    omega
  | ok fd =>
    refine iff_of_true ?_ (by simp)
    have hheld : Entry.holds ⟨l.next, (s fd).1⟩ = some (fd : Int) := by
      rw [Entry.holds, hsocket, Tcp.held_of_nonneg (Int.natCast_nonneg fd)]
    show ((fd : Int) :: l.opened).Perm ((_ :: l.table).filterMap Entry.holds)
    rw [List.filterMap_cons_some hheld]
    exact List.Perm.cons _ h

theorem create_table_of_fails (r : OpenResult) (s : Nat → Session × List Out)
    (h : ∀ fd, r ≠ .ok fd) :
    (l.create r s).1.table = l.table := by
  cases r with
  | failed => rfl
  | leaked fd => rfl
  | ok fd => exact absurd rfl (h fd)

theorem step_exact_iff (c : Config) (hheld : Held l) (h : Exact l) (i : Input × OpenCalls) :
    Exact (attemptStep c l i).1 ↔ NoLateFailure c l i := by
  obtain ⟨i, r⟩ := i
  cases i with
  | packet e p =>
    show Exact (handleIp c { e with sock := .of (openSocket r p) } p l).1 ↔
      (Opens c l p → ¬ FailsLate r p)
    have hstep := handleIp_step hheld c { e with sock := .of (openSocket r p) } p
    generalize handleIp c { e with sock := .of (openSocket r p) } p l = next at hstep ⊢
    cases hstep with
    | creates s hopens hsocket =>
      rw [create_exact_iff h _ hsocket, leaked_iff]
      exact ⟨fun hno _ => hno, fun hno => hno hopens⟩
    | visits f hno hcareful =>
      exact iff_of_true (h.pass hheld hcareful) fun hopens => absurd hopens hno
    | stays outs hno => exact iff_of_true h fun hopens => absurd hopens hno
  | monitor e =>
    have hcount : Held { l with sessions := count l.table } :=
      ⟨hheld.sound, hheld.distinct, hheld.opened, ⟨hheld.named.unique, hheld.named.next⟩⟩
    have hexact : Exact { l with sessions := count l.table } := h
    exact iff_of_true (hexact.pass hcount fun x hx =>
      monitorVisit_careful (hheld.sound x hx) c.abi e) trivial
  | check e =>
    exact iff_of_true (h.pass hheld fun x hx => checkVisit_careful (hheld.sound x hx) _ _ e) trivial
  | socket name e t =>
    refine iff_of_true (h.pass hheld fun x hx => ?_) trivial
    refine only_cases Entry.name name (socketVisit c.abi e t) x ?_ ?_
    · exact careful_stay (hheld.sound x hx)
    · exact fun _ => socketVisit_careful (hheld.sound x hx) c.abi e t
  | allowed e =>
    exact iff_of_true (h.pass hheld fun x hx => allowedVisit_careful (hheld.sound x hx) e) trivial
  | clear => exact iff_of_true (h.pass hheld fun x _ => clearVisit_careful x) trivial

theorem cleanSetup_iff (c : Config) (hheld : Held l) (i : Input × OpenCalls) :
    CleanSetup c l i ↔ NoLateFailure c l i := by
  obtain ⟨i, r⟩ := i
  cases i with
  | packet e p =>
    have htable : Opens c l p → (openSocket r p).1 = -1 →
        (attemptStep c l (.packet e p, r)).1.table = l.table := by
      intro hopens hfails
      show (handleIp c { e with sock := .of (openSocket r p) } p l).1.table = l.table
      have hstep := handleIp_step hheld c { e with sock := .of (openSocket r p) } p
      generalize handleIp c { e with sock := .of (openSocket r p) } p l = next at hstep ⊢
      cases hstep with
      | creates s _ _ => exact create_table_of_fails _ s (open_fails r p hfails)
      | visits f hno _ => exact absurd hopens hno
      | stays outs hno => exact absurd hopens hno
    constructor
    · exact fun h hopens => (clean_iff r p).mp fun hfails => (h hopens hfails).1
    · exact fun h hopens hfails => ⟨(clean_iff r p).mpr (h hopens) hfails, htable hopens hfails⟩
  | _ => exact Iff.rfl

end

/-! ## Runs -/

/-- Failed setups leak nothing, and the open descriptors stay the sockets of the table, in
exactly the runs in which no step behind `socket()` fails. -/
theorem failed_setup_clean_iff (c : Config) (is : List (Input × OpenCalls))
    (hfresh : Along (attemptStep c) (fun l i => Fresh l (attempt i)) empty is) :
    Along (attemptStep c) (CleanSetup c) empty is ∧ Always (attemptStep c) Exact empty is ↔
      Along (attemptStep c) (NoLateFailure c) empty is := by
  have hheld : ∀ l i, Held l → Fresh l (attempt i) → Held (attemptStep c l i).1 :=
    fun l i hl hi => (step_kept c hl (attempt i) hi).held
  have hexact := always_iff_of_along (attemptStep c) _ (NoLateFailure c) Exact Held hheld
    (fun l i hl _ hC => step_exact_iff c hl hC i) empty is held_empty (List.Perm.refl _) hfresh
  rw [hexact]
  refine and_iff_right_of_imp fun hno => ?_
  refine along_of_invariant (attemptStep c) (fun l i => Fresh l (attempt i) ∧ NoLateFailure c l i)
    (CleanSetup c) Held
    (fun l i hl hi => ⟨(cleanSetup_iff c hl i).mpr hi.2, hheld l i hl hi.1⟩) is empty held_empty ?_
  exact (along_and _ _ _ _ _).mpr ⟨hfresh, hno⟩

def allDone (fd : Nat) : OpenCalls := ⟨some fd, true, true, true, .inProgress⟩

/-- A connection, its data, a query that gets no socket, and an echo that does. -/
theorem failed_setup_clean_plain :
    let is : List (Input × OpenCalls) :=
      [(.packet (plainEnv 0) (tcpPacket 22 (Tcp.synPacket [])), allDone 5),
        (.packet (plainEnv 0) (tcpPacket 22 (Tcp.plainPacket 1001 5001 [1])),
          ⟨some 6, false, false, false, .fail⟩),
        (.packet (plainEnv 0) (udpPacket client 4000 (server 1) 53 [1]),
          ⟨none, false, false, false, .fail⟩),
        (.packet (plainEnv 0) (icmpPacket (server 1)), allDone 6),
        (.check fun _ => answerAt 400, allDone 7)]
    Along (attemptStep (plainConfig 10 true)) (CleanSetup (plainConfig 10 true)) empty is ∧
      Always (attemptStep (plainConfig 10 true)) Exact empty is :=
  (failed_setup_clean_iff _ _ (by decide +kernel)).mpr (by decide +kernel)

/-- The callback refuses the socket of a query, and `connect` finds no route for a connection:
the table stays empty, and two descriptors stay open. -/
theorem failed_setup_leaks :
    let is : List (Input × OpenCalls) :=
      [(.packet (plainEnv 0) (udpPacket client 4000 (server 1) 53 [1]),
        ⟨some 5, false, true, true, .ok⟩), (.packet (plainEnv 0) (tcpPacket 22 (Tcp.synPacket [])),
        ⟨some 6, true, true, true, .fail⟩)]
    (run (attemptStep (plainConfig 10 true)) empty is).1.table = [] ∧
      (run (attemptStep (plainConfig 10 true)) empty is).1.opened = [6, 5] ∧
      ¬ (Along (attemptStep (plainConfig 10 true)) (CleanSetup (plainConfig 10 true)) empty is ∧
        Always (attemptStep (plainConfig 10 true)) Exact empty is) :=
  ⟨by decide +kernel, by decide +kernel, mt And.right (by decide +kernel)⟩

end PdaNetClient.Table
