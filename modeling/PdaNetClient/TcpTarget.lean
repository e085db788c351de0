import PdaNetClient.TlsHello
import PdaNetClient.TcpSteps

/-!
# The target of the CONNECT request

What the request should name: the server name of the client's first data segment,
else the destination in the text of its own IP version, and in no case bytes that
end the request line. The code sends the request on the first packet behind the
SYN, takes the name out of that packet, and writes an IPv6 destination as IPv4.
-/
namespace PdaNetClient.Tcp

open Runs Tls

set_option autoImplicit false

/-! ## The text of an address -/

def hexadecimal (n : Nat) : Bytes := (Nat.toDigits 16 n).map fun c => UInt8.ofNat c.toNat

/-- The 16-bit groups of an IPv6 address. -/
def groups : Bytes → List Nat
  | a :: b :: rest => (a.toNat * 2 ^ 8 + b.toNat) :: groups rest
  | _ => []

def colons (g : List Nat) : Bytes := List.intercalate (ascii ":") (g.map hexadecimal)

/-- The number of zero groups at the front. -/
def zeroRun (g : List Nat) : Nat := (g.takeWhile (· = 0)).length

/-- The first of the longest runs of zero groups. -/
def longestRun (g : List Nat) : Nat :=
  (List.range g.length).foldl (fun i j => if zeroRun (g.drop i) <
    zeroRun (g.drop j) then j else i) 0

/-- The text of an IPv6 address: one longest run of at least two zero groups is left out. -/
def inetNtop6 (ip6 : Bytes) : Bytes :=
  let g := groups ip6
  let i := longestRun g
  let n := zeroRun (g.drop i)
  if n < 2 then colons g else colons (g.take i) ++ ascii "::" ++ colons (g.drop (i + n))

example :
    inetNtop6 [0x20, 1, 0xd, 0xb8, 0, 0, 0, 0, 0, 0, 0, 0, 0, 0, 0, 1] = ascii "2001:db8::1" := by
  decide +kernel

def addressText (version : Nat) (a : Addr) : Bytes :=
  if version = 4 then inetNtoa a.ip4 else inetNtop6 a.ip6

/-! ## The property -/

/-- No byte ends a line or a word of the request line. -/
def Clean (host : Bytes) : Prop := ∀ c ∈ host, c ≠ 13 ∧ c ≠ 10 ∧ c ≠ 32

instance (host : Bytes) : Decidable (Clean host) := inferInstanceAs (Decidable (∀ c ∈ host, _))

/-- The data of a segment that is not dropped for its urgent flag. -/
def Input.data : Input → Bytes
  | .packet _ p => if p.urg then [] else p.data.bytes
  | _ => []

/-- The client's first data segment, that of the SYN included. -/
def firstData (p : Packet) (is : List Input) : Option Bytes :=
  (p.data.bytes :: is.map Input.data).find? (· ≠ [])

/-- The segment holds a complete record with a ClientHello for `name`. -/
def Names (first : Option Bytes) (name : Bytes) : Prop :=
  ∃ (h : ClientHello) (rest : Bytes), first = some (h.wire ++ rest) ∧
    h.serverName = some name ∧ name ≠ []

structure Target (version : Nat) (daddr : Addr) (first : Option Bytes) (host : Bytes) : Prop where
  clean : Clean host
  named : ∀ name, Names first name → Clean name → host = name
  address : (∀ name, ¬ Names first name) → host = addressText version daddr

/-- Every request asks for the target, and for nothing else. -/
def TargetsRequested (abi : Abi) (e : SynEnv) (p : Packet) (is : List Input) : Prop :=
  ∀ st buf r, .connect st buf r ∈ (run (step abi) (newSession e p) is).2 →
    ∃ host, buf = connectRequest host e.dest ∧ Target e.version e.daddr (firstData p is) host

/-- A request is sent on the first data segment, with a clean server name that fits
the buffer, or for an IPv4 destination on a packet without a server name, when the
client does not give a clean one in its first data segment. -/
def SentForTarget (abi : Abi) (first : Option Bytes) (s : Session) : Input → Prop
  | .packet _ p => p.urg = false → proxied s.dest → s.connectSent = .notSent →
      (∃ name, first = some p.data.bytes ∧ Names first name ∧ Clean name ∧
        name.length ≤ fqdnMax ∧ 0 ∉ name) ∨
      (s.version = 4 ∧ parseTlsHeader abi p.data.bytes [] = [] ∧ ∀ name, Names first name →
        ¬ Clean name)
  | _ => True

/-! ## Names -/

theorem Names.unique {first : Option Bytes} {a b : Bytes} (ha : Names first a)
    (hb : Names first b) : a = b := by
  obtain ⟨g, x, rfl, hg, -⟩ := ha
  obtain ⟨h, y, heq, hh, -⟩ := hb
  have hext := ClientHello.extensions_unique (Option.some.inj heq)
  rw [ClientHello.serverName, hext] at hg
  exact Option.some.inj (hg.symm.trans hh)

theorem storedName_of_fits {name : Bytes} (hlen : name.length ≤ fqdnMax) (hzero : 0 ∉ name) :
    storedName name = name := by
  rw [storedName_nonzero hzero, List.take_of_length_le hlen]

theorem packetHostname_of_names (abi : Abi) (p : Packet) (s : Session) {name : Bytes}
    (h : Names (some p.data.bytes) name) (hlen : name.length ≤ fqdnMax) (hzero : 0 ∉ name) :
    packetHostname abi p s = name := by
  obtain ⟨g, rest, hdata, hname, hne⟩ := h
  have hparse := g.parseTlsHeader_wire abi rest
  rw [hname, Option.map_some, Option.getD_some, storedName_of_fits hlen hzero,
    ← Option.some.inj hdata] at hparse
  simp only [packetHostname, hparse, if_neg hne]

theorem clean_decimal (n : Nat) : Clean (decimal n) := by
  intro c hc
  obtain ⟨d, hd, rfl⟩ := List.mem_map.mp hc
  have hdigit := Nat.isDigit_of_mem_toDigits (by decide) (by decide) hd
  have hrange : 48 ≤ d.toNat ∧ d.toNat ≤ 57 := by
    simpa [Char.isDigit, UInt32.le_iff_toNat_le] using hdigit
  refine ⟨?_, ?_, ?_⟩ <;>
  · intro h
    have := congrArg UInt8.toNat h
    rw [UInt8.toNat_ofNat'] at this
    simp at this
    omega

theorem Clean.append {a b : Bytes} (ha : Clean a) (hb : Clean b) : Clean (a ++ b) := by
  intro c hc
  exact (List.mem_append.mp hc).elim (ha c) (hb c)

theorem clean_intercalate {sep : Bytes} (hsep : Clean sep) (parts : List Bytes)
    (h : ∀ b ∈ parts, Clean b) : Clean (List.intercalate sep parts) := by
  induction parts with
  | nil => simp [Clean, List.intercalate]
  | cons a parts ih =>
    have hrest := ih fun b hb => h b (by simp [hb])
    by_cases hnil : parts = []
    · simpa [hnil, List.intercalate] using h a (by simp)
    · rw [List.intercalate_cons_of_ne_nil hnil]
      exact ((h a (by simp)).append hsep).append hrest

theorem clean_inetNtoa (ip4 : Bytes) : Clean (inetNtoa ip4) := by
  refine clean_intercalate (by decide +kernel) _ fun b hb => ?_
  obtain ⟨c, -, rfl⟩ := List.mem_map.mp hb
  exact clean_decimal _

/-- The name in a request sent under the condition. -/
theorem packetHostname_target (abi : Abi) (first : Option Bytes) (e : PacketEnv) (p : Packet)
    (s : Session) (hurg : p.urg = false) (hport : proxied s.dest) (hsent : s.connectSent = .notSent)
    (h : SentForTarget abi first s (.packet e p)) :
    Target s.version s.daddr first (packetHostname abi p s) := by
  rcases h hurg hport hsent with ⟨name, hfirst, hnames, hclean, hlen, hzero⟩ | ⟨hver, hparse, hnone⟩
  · rw [packetHostname_of_names abi p s (hfirst ▸ hnames) hlen hzero]
    exact ⟨hclean, fun other hother _ => hnames.unique hother, fun hno => absurd hnames (hno name)⟩
  · have hhost : packetHostname abi p s = inetNtoa s.daddr.ip4 := by
      simp only [packetHostname, hparse, if_true, lookupHostname]
    refine ⟨hhost ▸ clean_inetNtoa _, fun name hname hclean => absurd hclean (hnone name hname),
      fun _ => ?_⟩
    rw [hhost, addressText, if_pos hver]

/-! ## Steps -/

def Out.isConnect : Out → Prop
  | .connect .. => True
  | _ => False

theorem Out.offSocket.not_connect {o : Out} (h : o.offSocket) : ¬ o.isConnect := by
  cases o <;> simp_all [Out.offSocket, Out.isConnect]

theorem relay_no_connect (abi : Abi) (e : SocketEnv) (s : Session) :
    ∀ o ∈ (relay abi e s).2, ¬ o.isConnect := by
  have hforward : ∀ o ∈ (forwardData abi e s).2.2, ¬ o.isConnect := by
    have := forwardData_rule (fun _ _ tr => ∀ o ∈ tr, ¬ Out.isConnect o) abi e s []
      (fun _ _ tr ht => by simpa [Out.isConnect, or_imp, forall_and] using ht)
      (fun _ _ _ tr _ _ _ _ ht _ _ _ _ => by simpa [Out.isConnect, or_imp, forall_and]
        using ht) (by simp)
    simpa using this
  have hread (t : Session) : ∀ o ∈ (readSocket e t).2, ¬ o.isConnect := by
    refine readSocket_cases e t ?_ ?_ ?_ ?_ ?_ ?_
    · simp
    · simp [Out.isConnect]
    · simp [Out.isConnect]
    · intro _ hst
      refine handleEof_cases e { t with time := e.now } hst ?_ ?_ ?_ <;> simp [Out.isConnect]
    · simp [Out.isConnect]
    · simp [Out.isConnect]
  intro o ho
  rcases List.mem_append.mp ho with ho | ho
  · rcases List.mem_append.mp ho with ho | ho
    · exact hforward o ho
    · exact (ackForwarded_offSocket e _ _ o ho).not_connect
  · exact hread _ o ho

theorem checkTcpSocket_no_connect (abi : Abi) (e : SocketEnv) (s : Session) :
    ∀ o ∈ (checkTcpSocket abi e s).2, ¬ o.isConnect := by
  have hrst (t : Session) : ∀ o ∈ (writeRst e.tun.rst t).2, ¬ o.isConnect :=
    fun o ho => (writeRst_offSocket e.tun.rst t o ho).not_connect
  refine checkTcpSocket_cases abi e s ?_ ?_ ?_ ?_
  · exact fun _ => hrst _
  · intro _ hst _
    refine readReply_cases e s hst ?_ ?_ ?_
    · intro _ _
      simpa [Out.isConnect] using hrst s
    · intro _ _ _
      simpa [Out.isConnect] using hrst s
    · intro _ _ _
      simp [Out.isConnect, drained]
  · exact fun _ hst _ o ho => (handshake_offSocket e s hst o ho).not_connect
  · exact fun _ _ => relay_no_connect abi e s

/-- Only a packet sends a request, and the name in it is its own. -/
theorem step_connect (abi : Abi) (s : Session) (i : Input) (st : State) (buf : Bytes)
    (r : Option Nat) (h : .connect st buf r ∈ (step abi s i).2) :
    ∃ e p, i = .packet e p ∧ p.urg = false ∧ proxied s.dest ∧ s.connectSent = .notSent ∧
      buf = connectRequest (packetHostname abi p s) s.dest := by
  cases i with
  | packet e p =>
    refine ⟨e, p, rfl, ?_⟩
    revert h
    show .connect st buf r ∈ (handleTcp abi e p s).2 → _
    refine handleTcp_cases abi e p s ?_ ?_ ?_ ?_ ?_
    · simp
    · simp
    · rintro t rfl hurg hport hsent hmem
      rcases List.mem_cons.mp hmem with heq | hmem
      · exact ⟨hurg, hport, hsent, (Out.connect.inj heq).2.1⟩
      · exact absurd trivial (writeRst_offSocket _ _ _ hmem).not_connect
    · rintro t n rfl hurg hport hsent _ hmem
      exact ⟨hurg, hport, hsent, (Out.connect.inj (List.mem_singleton.mp hmem)).2.1⟩
    · rintro t host rfl _ _ hmem
      exact absurd trivial (handleSession_offSocket _ _ _ _ hmem).not_connect
  | socket e => exact absurd trivial (checkTcpSocket_no_connect abi e s _ h)
  | monitor e =>
    simp only [step] at h
    split at h
    · exact absurd trivial (monitor_offSocket e s _ h).not_connect
    · simp at h
  | check e => exact absurd trivial (check_offSocket e s _ h).not_connect

/-- In a run whose requests are sent for their target, they name it. -/
theorem request_names_target (abi : Abi) (e : SynEnv) (p : Packet) (is : List Input)
    (h : Along (step abi) (SentForTarget abi (firstData p is)) (newSession e p) is) :
    TargetsRequested abi e p is := by
  have hrun := run_invariant (step abi) (SentForTarget abi (firstData p is))
    (fun s tr => s.fixed = (newSession e p).fixed ∧ ∀ st buf r, .connect st buf r ∈ tr →
      ∃ host, buf = connectRequest host e.dest ∧ Target e.version e.daddr (firstData p is) host)
    (fun s tr i hs hi => by
      refine ⟨(step_fixed abi s i).trans hs.1, fun st buf r hmem => ?_⟩
      rcases List.mem_append.mp hmem with hmem | hmem
      · exact hs.2 st buf r hmem
      · obtain ⟨e', p', rfl, hurg, hport, hsent, rfl⟩ := step_connect abi s i st buf r hmem
        have htarget := packetHostname_target abi _ e' p' s hurg hport hsent hi
        have hfixed := hs.1
        simp only [Session.fixed, Prod.mk.injEq] at hfixed
        obtain ⟨hver, -, -, hdaddr, hdest, -⟩ := hfixed
        rw [hver, hdaddr] at htarget
        exact ⟨_, by rw [hdest]; rfl, htarget⟩)
    is (newSession e p) ⟨rfl, by simp⟩ h
  exact hrun.2

theorem connectRequest_inj {a b : Bytes} {n : Nat}
    (h : connectRequest a n = connectRequest b n) : a = b := by
  simpa [connectRequest] using h

theorem name_length_lt (name : Bytes) (h : name.length < 2 ^ 8) : name.length < 2 ^ (8 * 2) := by
  omega

/-- The list of server names with `name` alone. -/
def namesFor (name : Bytes) (h : name.length < 2 ^ 8) : List ServerName :=
  [⟨0, name, name_length_lt name h⟩]

theorem length_namesFor (name : Bytes) (h : name.length < 2 ^ 8) :
    (wireNames (namesFor name h)).length + 2 < 2 ^ 16 := by
  simp [namesFor, wireNames, ServerName.wire]
  omega

theorem helloFor_lt (name : Bytes) (h : name.length < 2 ^ 8) :
    44 + Block.empty.bytes.length + ([0x13, 1] : Bytes).length + Block.uncompressed.bytes.length +
      (wireExtensions [.serverName (namesFor name h) (length_namesFor name h)]).length <
        2 ^ 16 := by
  simp [Block.empty, Block.uncompressed, namesFor, wireExtensions, Extension.wire,
    Extension.body, wireNames, ServerName.wire]
  omega

/-- A ClientHello with one extension, the server name `name`. -/
def helloFor (name : Bytes) (h : name.length < 2 ^ 8) : ClientHello where
  recordMinor := 1
  fixed := List.replicate 34 0
  fixed_length := length_zeros
  sessionId := .empty
  cipherSuites := ⟨[0x13, 1], by decide⟩
  compression := .uncompressed
  extensions := [.serverName (namesFor name h) (length_namesFor name h)]
  record_lt := helloFor_lt name h

theorem names_helloFor (name : Bytes) (h : name.length < 2 ^ 8) (hne : name ≠ []) :
    Names (some (helloFor name h).wire) name :=
  ⟨helloFor name h, [], by simp, rfl, hne⟩

def helloPacket (name : Bytes) (h : name.length < 2 ^ 8) : Packet :=
  plainPacket 1001 5001 (helloFor name h).wire

/-- The ClientHello is the first packet behind the handshake. -/
theorem request_names_target_hello :
    TargetsRequested .arm64V8a (plainSyn 443) (synPacket [])
      [.socket writable, .packet plainEnv (helloPacket (ascii "a.example") (by decide))] := by
  refine request_names_target _ _ _ _ ⟨trivial,
    fun _ _ _ => .inl ⟨ascii "a.example", ?_, ?_, ?_, ?_, ?_⟩, trivial⟩
  · decide +kernel
  · exact names_helloFor _ (by decide +kernel) (by decide +kernel)
  all_goals decide +kernel

/-- A request in front of the ClientHello names the address; an IPv6 destination is
named as IPv4; and a server name adds a header line. -/
theorem request_misses_target :
    ¬ TargetsRequested .arm64V8a (plainSyn 443) (synPacket [])
        [.socket writable, .packet plainEnv (plainPacket 1001 5001 []),
          .packet plainEnv (helloPacket (ascii "a.example") (by decide))] ∧
      ¬ TargetsRequested .arm64V8a { plainSyn 443 with
          version := 6
          daddr := ⟨[0x20, 1, 0xd, 0xb8, 0, 0, 0, 0, 0, 0, 0, 0, 0, 0, 0, 1], rfl⟩ } (synPacket [])
        [.socket writable, .packet plainEnv (plainPacket 1001 5001 [])] ∧
      ¬ TargetsRequested .arm64V8a (plainSyn 443) (synPacket [])
        [.socket writable,
          .packet plainEnv (helloPacket (ascii "a HTTP/1.0\r\nX: y\r\n") (by decide))] := by
  refine ⟨fun h => ?_, fun h => ?_, fun h => ?_⟩
  · obtain ⟨host, hbuf, htarget⟩ :=
      h .synRecv (connectRequest (ascii "93.184.216.34") 443) (some 38) (by decide +kernel)
    have hfirst :
      firstData (synPacket []) [.socket writable, .packet plainEnv (plainPacket 1001 5001 []),
        .packet plainEnv (helloPacket (ascii "a.example") (by decide))] =
        some (helloFor (ascii "a.example") (by decide)).wire := by decide +kernel
    have hhost := htarget.named _
      (hfirst ▸ names_helloFor _ (by decide +kernel) (by decide +kernel)) (by decide +kernel)
    rw [hhost] at hbuf
    exact absurd hbuf (by decide +kernel)
  · obtain ⟨host, hbuf, htarget⟩ :=
      h .synRecv (connectRequest (ascii "32.1.13.184") 443) (some 36) (by decide +kernel)
    have hhost := htarget.address fun name ⟨g, rest, hfirst, _⟩ => by
      have hnone : firstData (synPacket []) [.socket writable,
          .packet plainEnv (plainPacket 1001 5001 [])] = none := by
        decide +kernel
      cases hnone.symm.trans hfirst
    rw [hhost] at hbuf
    exact absurd hbuf (by decide +kernel)
  · obtain ⟨host, hbuf, htarget⟩ :=
      h .synRecv (connectRequest (ascii "a HTTP/1.0\r\nX: y\r\n") 443) (some 43)
      (by decide +kernel)
    exact absurd (connectRequest_inj hbuf ▸ htarget.clean) (by decide +kernel)

end PdaNetClient.Tcp
