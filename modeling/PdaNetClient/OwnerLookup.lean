import PdaNetClient.IpPacket

/-!
# `get_uid`

The owner of a connection, looked up in the tables of /proc/net. A line is what `sscanf`
assigns from it, with the remote address still in text; the kernel prints the words of an
address as numbers, so on a little-endian machine every word stands there in reverse.
-/
namespace PdaNetClient.Owner

open Ip Table
open Tcp (Addr)

set_option autoImplicit false

/-! ## Addresses in text -/

def char2nible (c : UInt8) : UInt8 :=
  if 48 ≤ c ∧ c ≤ 57 then c - 48
  else if 97 ≤ c ∧ c ≤ 102 then c - 97 + 10
  else if 65 ≤ c ∧ c ≤ 70 then c - 65 + 10
  else 255

/-- Behind an odd string stands its zero byte. -/
def hex2bytes : Bytes → Bytes
  | [] => []
  | [a] => [(char2nible a <<< 4) ||| char2nible 0]
  | a :: b :: rest => ((char2nible a <<< 4) ||| char2nible b) :: hex2bytes rest

/-- `htonl` of every word. -/
def htonlWords : Bytes → Bytes
  | a :: b :: c :: d :: rest => d :: c :: b :: a :: htonlWords rest
  | rest => rest

/-- A digit of `%X`. -/
def hexDigit (n : Nat) : UInt8 := if n < 10 then UInt8.ofNat (48 + n) else UInt8.ofNat (55 + n)

def hexByte (b : UInt8) : Bytes := [hexDigit (b.toNat / 16), hexDigit (b.toNat % 16)]

/-- An address as the kernel prints it: `%08X` of every word. -/
def procHex : Bytes → Bytes
  | a :: b :: c :: d :: rest => hexByte d ++ hexByte c ++ hexByte b ++ hexByte a ++ procHex rest
  | _ => []

/-! ## The tables -/

inductive ProcFile where
  | icmp | icmp6 | tcp | tcp6 | udp | udp6
  deriving DecidableEq, Repr

/-- What `sscanf` assigns from a line with four fields. -/
structure Scanned where
  sport : Int
  hex : Bytes
  dport : Int
  uid : Int
  deriving DecidableEq, Repr

/-- The files that can be opened, line by line; `none` is a line with another number of fields. -/
abbrev Proc := ProcFile → Option (List (Option Scanned))

def fileName (version : Nat) (protocol : UInt8) : Option ProcFile :=
  if protocol = ipprotoIcmp ∧ version = 4 then some .icmp
  else if protocol = ipprotoIcmpv6 ∧ version = 6 then some .icmp6
  else if protocol = ipprotoTcp then some (if version = 4 then .tcp else .tcp6)
  else if protocol = ipprotoUdp then some (if version = 4 then .udp else .udp6)
  else none

/-- The conditions on a line with four fields. -/
def Scanned.valid (version : Nat) (r : Scanned) : Prop :=
  r.hex.length = (if version = 4 then 8 else 32) ∧ 0 < r.sport ∧ 0 ≤ r.uid

instance (version : Nat) (r : Scanned) : Decidable (r.valid version) :=
  inferInstanceAs (Decidable (_ ∧ _))

/-- "Scan proc file", behind the first line. -/
def scanLines (version sport : Nat) (daddr : Bytes) (dport : Nat) :
    Int → List (Option Scanned) → Int
  | uid, [] => uid
  | uid, none :: rest => scanLines version sport daddr dport uid rest
  | uid, some r :: rest =>
    if r.valid version then
      if r.sport = sport then
        if r.dport = dport ∧ htonlWords (hex2bytes r.hex) = daddr then r.uid
        else scanLines version sport daddr dport r.uid rest
      else scanLines version sport daddr dport uid rest
    else scanLines version sport daddr dport uid rest

def getUidSub (proc : Proc) (version : Nat) (protocol : UInt8) (sport : Nat) (daddr : Bytes)
    (dport : Nat) : Int :=
  match fileName version protocol with
  | none => -1
  | some file =>
    match proc file with
    | none => -1
    | some lines => scanLines version sport daddr dport (-1) (lines.drop 1)

/-- `daddr128` -/
def mapped (daddr : Addr) : Bytes := List.replicate 10 0 ++ [0xFF, 0xFF] ++ daddr.ip4

def getUid (proc : Proc) (version : Nat) (protocol : UInt8) (sport : Nat) (daddr : Addr)
    (dport : Nat) : Int :=
  let uid := if version = 4 then getUidSub proc 6 protocol sport (mapped daddr) dport else -1
  if uid < 0 then getUidSub proc version protocol sport (addrKey version daddr) dport else uid

/-! ## Well-formed tables -/

/-- A connection with its owner. -/
structure Conn where
  lport : Nat
  raddr : Bytes
  rport : Nat
  uid : Nat
  port_pos : 0 < lport
  deriving DecidableEq, Repr

/-- The row of a connection. -/
def Conn.row (c : Conn) : Scanned := ⟨c.lport, procHex c.raddr, c.rport, c.uid⟩

/-- The size of the addresses of a file. -/
def width : ProcFile → Nat
  | .icmp | .tcp | .udp => 4
  | .icmp6 | .tcp6 | .udp6 => 16

/-- A file with a first line, whatever it is, and a row for each of its connections. -/
structure File (f : ProcFile) where
  header : Option Scanned
  conns : List Conn
  length_eq : ∀ c ∈ conns, c.raddr.length = width f

def File.lines {f : ProcFile} (file : File f) : List (Option Scanned) :=
  file.header :: file.conns.map fun c => some c.row

/-- The tables; there is none for a file that cannot be opened. -/
abbrev Net := (f : ProcFile) → Option (File f)

def Net.proc (net : Net) : Proc := fun f => (net f).map File.lines

/-- The connections that are looked at for a version and a protocol. -/
def Net.conns (net : Net) (version : Nat) (protocol : UInt8) : List Conn :=
  match fileName version protocol with
  | none => []
  | some f =>
    match net f with
    | none => []
    | some file => file.conns

/-- The connection that is asked for. -/
def Conn.exact (c : Conn) (sport : Nat) (daddr : Bytes) (dport : Nat) : Prop :=
  c.lport = sport ∧ c.rport = dport ∧ c.raddr = daddr

instance (c : Conn) (sport : Nat) (daddr : Bytes) (dport : Nat) :
    Decidable (c.exact sport daddr dport) :=
  inferInstanceAs (Decidable (_ ∧ _))

/-- A row of either table consulted for the connection that is asked for. -/
def Owns (net : Net) (version : Nat) (protocol : UInt8) (sport : Nat) (daddr : Addr) (dport : Nat)
    (c : Conn) : Prop :=
  (version = 4 ∧ c ∈ net.conns 6 protocol ∧ c.exact sport (mapped daddr) dport) ∨
    (c ∈ net.conns version protocol ∧ c.exact sport (addrKey version daddr) dport)

/-- Where the connection is in a table, its owner is found. -/
def FindsOwner (net : Net) (version : Nat) (protocol : UInt8) (sport : Nat) (daddr : Addr)
    (dport : Nat) : Prop :=
  (∃ c, Owns net version protocol sport daddr dport c) →
    ∃ c, Owns net version protocol sport daddr dport c ∧
    getUid net.proc version protocol sport daddr dport = c.uid

/-- For version 4 the IPv6 table is read first: unless the connection is there, a row of it with the
local port hides the IPv4 table. The last such row must have the right owner. -/
def NotHidden (net : Net) (version : Nat) (protocol : UInt8) (sport : Nat) (daddr : Addr)
    (dport : Nat) : Prop :=
  version = 4 → (∀ c ∈ net.conns 6 protocol, ¬ c.exact sport (mapped daddr) dport) →
    ∀ p, ((net.conns 6 protocol).filter (·.lport = sport)).getLast? = some p →
      (∃ c ∈ net.conns 4 protocol, c.exact sport (addrKey 4 daddr) dport) →
        ∃ c ∈ net.conns 4 protocol, c.exact sport (addrKey 4 daddr) dport ∧ c.uid = p.uid

/-! ## Decoding -/

theorem char2nible_hexDigit : ∀ n < 16, char2nible (hexDigit n) = UInt8.ofNat n := by decide

theorem nibbles (b : UInt8) :
    (UInt8.ofNat (b.toNat / 16) <<< 4) ||| UInt8.ofNat (b.toNat % 16) = b := by
  have hall : ∀ n < 256, (UInt8.ofNat (n / 16) <<< 4) ||| UInt8.ofNat (n % 16) = UInt8.ofNat n := by
    decide +kernel
  rw [hall b.toNat b.toNat_lt, UInt8.ofNat_toNat]

theorem hex2bytes_hexByte (b : UInt8) (rest : Bytes) :
    hex2bytes (hexByte b ++ rest) = b :: hex2bytes rest := by
  have hlt := b.toNat_lt
  show ((char2nible _ <<< 4) ||| char2nible _) :: _ = _
  rw [char2nible_hexDigit _ (by omega), char2nible_hexDigit _ (by omega), nibbles]
  rfl

theorem length_procHex {n : Nat} {addr : Bytes} (h : addr.length = 4 * n) :
    (procHex addr).length = 8 * n := by
  induction n generalizing addr with
  | zero =>
    obtain rfl := List.length_eq_zero_iff.mp h
    rfl
  | succ n ih =>
    match addr, h with
    | a :: b :: c :: d :: rest, h =>
      simp only [List.length_cons] at h
      simp only [procHex, List.length_append, hexByte, List.length_cons, List.length_nil,
        ih (show rest.length = 4 * n by omega)]
      omega

/-- The code reads an address as the kernel prints it. -/
theorem decode_procHex {n : Nat} {addr : Bytes} (h : addr.length = 4 * n) :
    htonlWords (hex2bytes (procHex addr)) = addr := by
  induction n generalizing addr with
  | zero =>
    obtain rfl := List.length_eq_zero_iff.mp h
    rfl
  | succ n ih =>
    match addr, h with
    | a :: b :: c :: d :: rest, h =>
      simp only [List.length_cons] at h
      rw [procHex, List.append_assoc, List.append_assoc, List.append_assoc, hex2bytes_hexByte,
        hex2bytes_hexByte, hex2bytes_hexByte, hex2bytes_hexByte, htonlWords,
        ih (show rest.length = 4 * n by omega)]

/-! ## One table -/

section

variable (sport : Nat) (daddr : Bytes) (dport : Nat)

/-- The row whose owner is returned: the first one for the connection, or else the last one with the
port. -/
def pick : List Conn → Option Conn
  | [] => none
  | c :: rest =>
    if c.exact sport daddr dport then some c
    else match pick rest with
      | some d => some d
      | none => if c.lport = sport then some c else none

/-- The owner in the row, if there is one. -/
def ownerOr (uid : Int) : Option Conn → Int
  | some c => c.uid
  | none => uid

theorem row_valid {f : ProcFile} {version : Nat} (hwidth : width f = if version = 4 then 4 else 16)
    {c : Conn} (hc : c.raddr.length = width f) :
    c.row.valid version ∧ htonlWords (hex2bytes c.row.hex) = c.raddr := by
  have hpos := c.port_pos
  by_cases h : version = 4
  · have hlen : c.raddr.length = 4 * 1 := by rw [hc, hwidth, if_pos h]
    refine ⟨⟨?_, Int.natCast_pos.mpr hpos, Int.natCast_nonneg c.uid⟩, decode_procHex hlen⟩
    rw [if_pos h]
    exact length_procHex hlen
  · have hlen : c.raddr.length = 4 * 4 := by rw [hc, hwidth, if_neg h]
    refine ⟨⟨?_, Int.natCast_pos.mpr hpos, Int.natCast_nonneg c.uid⟩, decode_procHex hlen⟩
    rw [if_neg h]
    exact length_procHex hlen

/-- The scan, one connection after the other; the owner of a row with the port is remembered. -/
theorem scanLines_rows {f : ProcFile} {version : Nat}
    (hwidth : width f = if version = 4 then 4 else 16) {conns : List Conn}
    (hconns : ∀ c ∈ conns, c.raddr.length = width f) (uid : Int) :
    scanLines version sport daddr dport uid (conns.map fun c => some c.row) =
      ownerOr uid (pick sport daddr dport conns) := by
  induction conns generalizing uid with
  | nil => rfl
  | cons c rest ih =>
    obtain ⟨hvalid, haddr⟩ := row_valid hwidth (hconns c List.mem_cons_self)
    have hrest := ih fun d hd => hconns d (List.mem_cons_of_mem c hd)
    have hport : c.row.sport = sport ↔ c.lport = sport := Int.natCast_inj
    have hremote : c.row.dport = dport ↔ c.rport = dport := Int.natCast_inj
    rw [List.map_cons, scanLines, if_pos hvalid, haddr, hrest, hrest, pick]
    simp only [hport, hremote]
    by_cases hexact : c.exact sport daddr dport
    · rw [if_pos hexact, if_pos hexact.1, if_pos hexact.2]
      rfl
    · rw [if_neg hexact]
      by_cases hlocal : c.lport = sport
      · have hother : ¬ (c.rport = dport ∧ c.raddr = daddr) := fun hboth => hexact ⟨hlocal, hboth⟩
        rw [if_pos hlocal, if_neg hother, if_pos hlocal]
        cases pick sport daddr dport rest <;> rfl
      · rw [if_neg hlocal, if_neg hlocal]
        cases pick sport daddr dport rest <;> rfl

variable {sport} {daddr} {dport} {conns : List Conn}

theorem pick_exact (h : ∃ c ∈ conns, c.exact sport daddr dport) :
    ∃ c ∈ conns, c.exact sport daddr dport ∧ pick sport daddr dport conns = some c := by
  induction conns with
  | nil =>
    obtain ⟨c, hc, _⟩ := h
    cases hc
  | cons c rest ih =>
    by_cases hexact : c.exact sport daddr dport
    · exact ⟨c, List.mem_cons_self, hexact, if_pos hexact⟩
    · have hrest : ∃ d ∈ rest, d.exact sport daddr dport := by
        obtain ⟨d, hd, hd'⟩ := h
        rcases List.mem_cons.mp hd with rfl | hd
        · exact absurd hd' hexact
        · exact ⟨d, hd, hd'⟩
      obtain ⟨d, hd, hd', hpick⟩ := ih hrest
      refine ⟨d, List.mem_cons_of_mem c hd, hd', ?_⟩
      rw [pick, if_neg hexact, hpick]

theorem pick_partial (h : ∀ c ∈ conns, ¬ c.exact sport daddr dport) :
    pick sport daddr dport conns = (conns.filter (·.lport = sport)).getLast? := by
  induction conns with
  | nil => rfl
  | cons c rest ih =>
    have hrest := ih fun d hd => h d (List.mem_cons_of_mem c hd)
    rw [pick, if_neg (h c List.mem_cons_self), hrest]
    by_cases hlocal : c.lport = sport
    · rw [List.filter_cons_of_pos (by simpa using hlocal), List.getLast?_cons, if_pos hlocal]
      cases (rest.filter (·.lport = sport)).getLast? <;> rfl
    · rw [List.filter_cons_of_neg (by simpa using hlocal), if_neg hlocal]
      cases (rest.filter (·.lport = sport)).getLast? <;> rfl

end

theorem fileName_width {version : Nat} {protocol : UInt8} {f : ProcFile}
    (hversion : version = 4 ∨ version = 6) (h : fileName version protocol = some f) :
    width f = if version = 4 then 4 else 16 := by
  unfold fileName at h
  rcases hversion with rfl | rfl
  all_goals split_ifs at h
  all_goals injection h with h
  all_goals subst h
  all_goals first
    | rfl
    | omega

theorem getUidSub_eq (net : Net) {version : Nat} (hversion : version = 4 ∨ version = 6)
    (protocol : UInt8) (sport : Nat) (daddr : Bytes) (dport : Nat) :
    getUidSub net.proc version protocol sport daddr dport =
        ownerOr (-1) (pick sport daddr dport (net.conns version protocol)) := by
  unfold getUidSub Net.conns Net.proc
  cases hfile : fileName version protocol with
  | none => rfl
  | some f =>
    cases hopen : net f with
    | none => simp only [hopen, Option.map_none]; rfl
    | some file =>
      simp only [hopen, Option.map_some]
      exact scanLines_rows sport daddr dport (fileName_width hversion hfile) file.length_eq (-1)

/-! ## Both tables -/

section

variable {net : Net} {protocol : UInt8} {sport dport : Nat} {daddr : Addr}

theorem ownerOr_nonneg (c : Conn) : ¬ ownerOr (-1) (some c) < 0 :=
  Int.not_lt.mpr (Int.natCast_nonneg c.uid)

/-- A row that is picked from the IPv6 table is the answer. -/
theorem getUid_hidden {c : Conn}
    (h : pick sport (mapped daddr) dport (net.conns 6 protocol) = some c) :
    getUid net.proc 4 protocol sport daddr dport = c.uid := by
  have hsub := getUidSub_eq net (.inr rfl) protocol sport (mapped daddr) dport
  rw [h] at hsub
  unfold getUid
  simp only [if_true, hsub, if_neg (ownerOr_nonneg c)]
  rfl

/-- Without one, the IPv4 table is. -/
theorem getUid_second (h : pick sport (mapped daddr) dport (net.conns 6 protocol) = none) :
    getUid net.proc 4 protocol sport daddr dport =
      ownerOr (-1) (pick sport (addrKey 4 daddr) dport (net.conns 4 protocol)) := by
  have hsub := getUidSub_eq net (.inr rfl) protocol sport (mapped daddr) dport
  rw [h] at hsub
  have hnone : ownerOr (-1) none < 0 := by decide
  unfold getUid
  simp only [if_true, hsub, if_pos hnone]
  exact getUidSub_eq net (.inl rfl) protocol sport (addrKey 4 daddr) dport

theorem getUid_six : getUid net.proc 6 protocol sport daddr dport =
    ownerOr (-1) (pick sport (addrKey 6 daddr) dport (net.conns 6 protocol)) := by
  unfold getUid
  simp only [show ¬ (6 : Nat) = 4 by decide, if_false, show (-1 : Int) < 0 by decide, if_true]
  exact getUidSub_eq net (.inr rfl) protocol sport (addrKey 6 daddr) dport

/-- One table, as for version 6, always gives the owner. -/
theorem findsOwner_six : FindsOwner net 6 protocol sport daddr dport := by
  intro ⟨c, howns⟩
  rcases howns with ⟨hfour, -⟩ | ⟨hc, hexact⟩
  · cases hfour
  · obtain ⟨d, hd, hd', hpick⟩ := pick_exact ⟨c, hc, hexact⟩
    refine ⟨d, .inr ⟨hd, hd'⟩, ?_⟩
    rw [getUid_six, hpick]
    rfl

theorem findsOwner_four :
    FindsOwner net 4 protocol sport daddr dport ↔ NotHidden net 4 protocol sport daddr dport := by
  constructor
  · intro hfinds _ hno p hp ⟨c, hc, hexact⟩
    obtain ⟨d, howns, huid⟩ := hfinds ⟨c, .inr ⟨hc, hexact⟩⟩
    have hpick := pick_partial hno
    rw [hp] at hpick
    rw [getUid_hidden hpick, Int.natCast_inj] at huid
    rcases howns with ⟨-, hd, hd'⟩ | ⟨hd, hd'⟩
    · exact absurd hd' (hno d hd)
    · exact ⟨d, hd, hd', huid.symm⟩
  · intro hhidden ⟨c, howns⟩
    by_cases hsix : ∃ d ∈ net.conns 6 protocol, d.exact sport (mapped daddr) dport
    · obtain ⟨d, hd, hd', hpick⟩ := pick_exact hsix
      exact ⟨d, .inl ⟨rfl, hd, hd'⟩, getUid_hidden hpick⟩
    · have hno : ∀ d ∈ net.conns 6 protocol, ¬ d.exact sport (mapped daddr) dport :=
        fun d hd hd' => hsix ⟨d, hd, hd'⟩
      have hfour : ∃ d ∈ net.conns 4 protocol, d.exact sport (addrKey 4 daddr) dport := by
        rcases howns with ⟨-, hc, hexact⟩ | ⟨hc, hexact⟩
        · exact absurd hexact (hno c hc)
        · exact ⟨c, hc, hexact⟩
      have hpick := pick_partial hno
      cases hlast : ((net.conns 6 protocol).filter (·.lport = sport)).getLast? with
      | some p =>
        rw [hlast] at hpick
        obtain ⟨d, hd, hd', huid⟩ := hhidden rfl hno p hlast hfour
        refine ⟨d, .inr ⟨hd, hd'⟩, ?_⟩
        rw [getUid_hidden hpick, huid]
      | none =>
        rw [hlast] at hpick
        obtain ⟨d, hd, hd', hpick'⟩ := pick_exact hfour
        refine ⟨d, .inr ⟨hd, hd'⟩, ?_⟩
        rw [getUid_second hpick, hpick']
        rfl

end

/-- The owner of a connection in a table is found, whatever the order of the rows, if and only if no
row of the IPv6 table with the local port alone hides it. -/
theorem getUid_findsOwner (net : Net) (version : Nat) (protocol : UInt8) (sport : Nat)
    (daddr : Addr) (dport : Nat) (hversion : version = 4 ∨ version = 6) :
    FindsOwner net version protocol sport daddr dport ↔
    NotHidden net version protocol sport daddr dport := by
  rcases hversion with rfl | rfl
  · exact findsOwner_four
  · exact iff_of_true findsOwner_six fun hfour => by cases hfour

/-- A connection over IPv4, and another one of the same local port in the IPv6 table. -/
def sharedPort : Net
  | .tcp => some ⟨none, [⟨40000, [93, 184, 216, 34], 443, 10001, by decide⟩], by decide⟩
  | .tcp6 => some ⟨none, [⟨40000, List.replicate 16 0, 0, 10002, by decide⟩], by decide⟩
  | _ => none

/-- The same tables without the other one. -/
def alone : Net
  | .tcp => some ⟨none, [⟨40000, [1, 1, 1, 1], 80, 10003, by decide⟩,
      ⟨40000, [93, 184, 216, 34], 443, 10001, by decide⟩], by decide⟩
  | _ => none

theorem getUid_findsOwner_alone : FindsOwner alone 4 ipprotoTcp 40000 (.ofIp4 93 184 216 34) 443 :=
  (getUid_findsOwner alone 4 ipprotoTcp 40000 (.ofIp4 93 184 216 34) 443 (.inl rfl)).mpr
    fun _ _ p hp => by cases hp

/-- The connection is asked for, and the owner of the other one is the answer. -/
theorem getUid_wrong :
    getUid sharedPort.proc 4 ipprotoTcp 40000 (.ofIp4 93 184 216 34) 443 = 10002 ∧
    ¬ FindsOwner sharedPort 4 ipprotoTcp 40000 (.ofIp4 93 184 216 34) 443 := by
  have hanswer : getUid sharedPort.proc 4 ipprotoTcp 40000 (.ofIp4 93 184 216 34) 443 = 10002 := by
    decide +kernel
  refine ⟨hanswer, fun hfinds => ?_⟩
  obtain ⟨c, howns, huid⟩ :=
    hfinds ⟨⟨40000, [93, 184, 216, 34], 443, 10001, by decide⟩, .inr ⟨by decide, by decide⟩⟩
  rw [hanswer] at huid
  rcases howns with ⟨-, hc, hexact⟩ | ⟨hc, -⟩
  · have hsix : c = ⟨40000, List.replicate 16 0, 0, 10002, by decide⟩ := List.mem_singleton.mp hc
    rw [hsix] at hexact
    exact absurd hexact (by decide)
  · have hfour : c = ⟨40000, [93, 184, 216, 34], 443, 10001, by decide⟩ := List.mem_singleton.mp hc
    rw [hfour] at huid
    exact absurd huid (by decide)

end PdaNetClient.Owner
