import PdaNetClient.Tls

/-!
# The ClientHello that `tls.c` reads

The record as a client writes it, independent of the parser: fields behind their
lengths, inside a handshake message, inside a record. The parser returns the first
host name of the server name extension, up to 255 bytes and up to a zero byte. It
does not look at the length of the message: what stands behind the compression
methods is read as extensions, whether or not it belongs to the ClientHello.
-/
namespace PdaNetClient.Tls

set_option autoImplicit false

/-! ## The format -/

/-- A variable-length field whose length is written in `w` bytes. -/
@[ext] structure Block (w : Nat) where
  bytes : Bytes
  length_lt : bytes.length < 2 ^ (8 * w)

def wire16 (n : Nat) : Bytes := [UInt8.ofNat (n / 2 ^ 8), UInt8.ofNat n]
def wire24 (n : Nat) : Bytes := UInt8.ofNat (n / 2 ^ 16) :: wire16 n

def Block.wire1 (v : Block 1) : Bytes := UInt8.ofNat v.bytes.length :: v.bytes
def Block.wire2 (v : Block 2) : Bytes := wire16 v.bytes.length ++ v.bytes

/-- An entry of a server name list; kind 0 is `host_name`. -/
@[ext] structure ServerName where
  kind : UInt8
  name : Block 2

def ServerName.wire (n : ServerName) : Bytes := n.kind :: n.name.wire2

def wireNames (names : List ServerName) : Bytes := names.flatMap ServerName.wire

/-- An extension: the server name list, or any other type. -/
inductive Extension where
  | serverName (names : List ServerName) (length_lt : (wireNames names).length + 2 < 2 ^ 16)
  | other (high low : UInt8) (ne : ¬ (high = 0 ∧ low = 0)) (body : Block 2)

namespace Extension

def high : Extension → UInt8
  | .serverName .. => 0
  | .other high .. => high

def low : Extension → UInt8
  | .serverName .. => 0
  | .other _ low .. => low

def body : Extension → Bytes
  | .serverName names _ => wire16 (wireNames names).length ++ wireNames names
  | .other _ _ _ body => body.bytes

def wire (x : Extension) : Bytes := x.high :: x.low :: (wire16 x.body.length ++ x.body)

end Extension

def wireExtensions (exts : List Extension) : Bytes := exts.flatMap Extension.wire

/-- The server name list of a list of extensions. -/
def nameList (exts : List Extension) : Option (List ServerName) :=
  exts.findSome? fun
    | .serverName names _ => some names
    | .other .. => none

/-- The first host name of the list. -/
def hostName (exts : List Extension) : Option Bytes :=
  ((nameList exts).bind fun names => names.find? (·.kind = 0)).map fun n => n.name.bytes

structure ClientHello where
  recordMinor : UInt8
  /-- the version and the random number -/
  fixed : Bytes
  fixed_length : fixed.length = 34
  sessionId : Block 1
  cipherSuites : Block 2
  compression : Block 1
  extensions : List Extension
  record_lt : 44 + sessionId.bytes.length + cipherSuites.bytes.length + compression.bytes.length +
    (wireExtensions extensions).length < 2 ^ 16

namespace ClientHello

def message (h : ClientHello) : Bytes :=
  h.fixed ++ (h.sessionId.wire1 ++ (h.cipherSuites.wire2 ++ (h.compression.wire1 ++
    (wire16 (wireExtensions h.extensions).length ++ wireExtensions h.extensions))))

/-- The handshake message in one record. -/
def wire (h : ClientHello) : Bytes :=
  [0x16, 3, h.recordMinor] ++
    (wire16 (h.message.length + 4) ++ (1 :: (wire24 h.message.length ++ h.message)))

def serverName (h : ClientHello) : Option Bytes := hostName h.extensions

end ClientHello

/-- What a record holds behind the compression methods: the block of the extensions, if
there is one, and whatever follows the message. -/
inductive Tail where
  | none (more : Bytes)
  | block (exts : List Extension) (more : Bytes)

namespace Tail

/-- The part that belongs to the message. -/
def own : Tail → Bytes
  | .none _ => []
  | .block exts _ => wire16 (wireExtensions exts).length ++ wireExtensions exts

def more : Tail → Bytes
  | .none more => more
  | .block _ more => more

/-- All bytes behind the compression methods. -/
def bytes (tail : Tail) : Bytes := tail.own ++ tail.more

def serverName : Tail → Option Bytes
  | .none _ => Option.none
  | .block exts _ => hostName exts

end Tail

/-- A record of any minor version with a ClientHello, with or without extensions. -/
structure Record where
  minor : UInt8
  /-- the version and the random number -/
  fixed : Bytes
  fixed_length : fixed.length = 34
  sessionId : Block 1
  cipherSuites : Block 2
  compression : Block 1
  tail : Tail
  length_lt : 42 + sessionId.bytes.length + cipherSuites.bytes.length + compression.bytes.length +
    tail.own.length + tail.more.length < 2 ^ 16

namespace Record

def fields (r : Record) : Bytes :=
  r.sessionId.wire1 ++ (r.cipherSuites.wire2 ++ (r.compression.wire1 ++ r.tail.own))

def wire (r : Record) : Bytes :=
  [0x16, 3, r.minor] ++ (wire16 (4 + (r.fixed ++ r.fields).length + r.tail.more.length) ++
    (1 :: (wire24 (r.fixed ++ r.fields).length ++ (r.fixed ++ (r.fields ++ r.tail.more)))))

end Record

/-- A ClientHello with an extension block, in a record of its own. -/
def ClientHello.record (h : ClientHello) : Record where
  minor := h.recordMinor
  fixed := h.fixed
  fixed_length := h.fixed_length
  sessionId := h.sessionId
  cipherSuites := h.cipherSuites
  compression := h.compression
  tail := .block h.extensions []
  length_lt := by
    have := h.record_lt
    simp only [Tail.own, Tail.more, List.length_append, wire16, List.length_cons, List.length_nil]
    omega

/-! ## Reading at a position -/

@[simp] theorem length_wire16 (n : Nat) : (wire16 n).length = 2 := rfl
@[simp] theorem length_wire24 (n : Nat) : (wire24 n).length = 3 := rfl
@[simp] theorem length_wire1 (v : Block 1) : v.wire1.length = 1 + v.bytes.length := by
  simp [Block.wire1]; omega
@[simp] theorem length_wire2 (v : Block 2) : v.wire2.length = 2 + v.bytes.length := by
  simp [Block.wire2]

theorem byteAt_prefix {b data : Bytes} {c : UInt8} (h : b ++ [c] <+: data) {i : Nat}
    (hi : i = b.length) : byteAt data i = c := by
  obtain ⟨after, rfl⟩ := h
  simp [byteAt, hi]

theorem be16_prefix {b data : Bytes} {n : Nat} (h : b ++ wire16 n <+: data) (hn : n < 2 ^ 16)
    {i : Nat} (hi : i = b.length) : be16 data i = n := by
  have hhigh : byteAt data i = UInt8.ofNat (n / 2 ^ 8) :=
    byteAt_prefix (.trans (by simp [wire16]) h) hi
  have hlow : byteAt data (i + 1) = UInt8.ofNat n := by
    have hpre : b ++ [UInt8.ofNat (n / 2 ^ 8)] ++ [UInt8.ofNat n] <+: data := by
      simpa [wire16] using h
    exact byteAt_prefix hpre (by simp [hi])
  rw [be16, hhigh, hlow, UInt8.toNat_ofNat', UInt8.toNat_ofNat']
  omega

theorem ClientHello.length_message (h : ClientHello) : h.message.length =
    40 + h.sessionId.bytes.length + h.cipherSuites.bytes.length + h.compression.bytes.length +
      (wireExtensions h.extensions).length := by
  simp only [message, List.length_append, h.fixed_length, length_wire1, length_wire2, length_wire16]
  omega

/-! ## Fields

No field is the beginning of two others with different bytes. -/

theorem wire16_inj {m n : Nat} {x y : Bytes} (hm : m < 2 ^ 16) (hn : n < 2 ^ 16)
    (h : wire16 m ++ x = wire16 n ++ y) : m = n ∧ x = y := by
  have hsize (k : Nat) (hk : k < 2 ^ 16) (z : Bytes) : be16 (wire16 k ++ z) 0 = k :=
    be16_prefix (b := []) (List.prefix_append _ _) hk rfl
  have hmn := hsize m hm x
  rw [h, hsize n hn y] at hmn
  subst hmn
  exact ⟨rfl, List.append_cancel_left h⟩

theorem block_inj {a b x y : Bytes} (ha : a.length < 2 ^ 16) (hb : b.length < 2 ^ 16)
    (h : wire16 a.length ++ (a ++ x) = wire16 b.length ++ (b ++ y)) : a = b ∧ x = y := by
  obtain ⟨hlen, hrest⟩ := wire16_inj ha hb h
  exact List.append_inj hrest hlen

theorem Block.wire1_inj {a b : Block 1} {x y : Bytes}
    (h : a.wire1 ++ x = b.wire1 ++ y) : x = y := by
  have ha := a.length_lt
  have hb := b.length_lt
  simp only [Block.wire1, List.cons_append, List.cons.injEq] at h
  have hlen := congrArg UInt8.toNat h.1
  rw [UInt8.toNat_ofNat', UInt8.toNat_ofNat'] at hlen
  exact (List.append_inj h.2 (by omega)).2

theorem Block.wire2_inj {a b : Block 2} {x y : Bytes}
    (h : a.wire2 ++ x = b.wire2 ++ y) : a = b ∧ x = y := by
  simp only [Block.wire2, List.append_assoc] at h
  obtain ⟨hbytes, hrest⟩ := block_inj a.length_lt b.length_lt h
  exact ⟨Block.ext hbytes, hrest⟩

theorem ServerName.wire_inj {a b : ServerName} {x y : Bytes}
    (h : a.wire ++ x = b.wire ++ y) : a = b ∧ x = y := by
  simp only [ServerName.wire, List.cons_append, List.cons.injEq] at h
  obtain ⟨hname, hrest⟩ := Block.wire2_inj h.2
  exact ⟨ServerName.ext h.1 hname, hrest⟩

theorem byteAt_drop (data : Bytes) (pos i : Nat) :
    byteAt (data.drop pos) i = byteAt data (pos + i) := by
  simp [byteAt, List.getD_eq_getElem?_getD]

theorem be16_drop (data : Bytes) (pos i : Nat) : be16 (data.drop pos) i = be16 data (pos + i) := by
  simp only [be16, byteAt_drop, Nat.add_assoc]

theorem drop_of_room {data : Bytes} {pos : Nat} (h : pos < data.length) :
    data.drop pos = byteAt data pos :: data.drop (pos + 1) := by
  rw [List.drop_eq_getElem_cons h, byteAt, List.getD_eq_getElem?_getD, List.getElem?_eq_getElem h,
    Option.getD_some]

/-- The length in front of a field. -/
theorem be16_wire2 (v : Block 2) (rest : Bytes) : be16 (v.wire2 ++ rest) 0 = v.bytes.length :=
  be16_prefix (b := []) (by simp [Block.wire2]) v.length_lt rfl

theorem wire16_be16 {data : Bytes} (h : 2 ≤ data.length) : wire16 (be16 data 0) = data.take 2 := by
  match data with
  | a :: b :: rest =>
    have ha := a.toNat_lt
    have hb := b.toNat_lt
    have hhigh : UInt8.ofNat ((a.toNat * 256 + b.toNat) / 2 ^ 8) = a := by
      apply UInt8.toNat.inj
      rw [UInt8.toNat_ofNat']
      omega
    have hlow : UInt8.ofNat (a.toNat * 256 + b.toNat) = b := by
      apply UInt8.toNat.inj
      rw [UInt8.toNat_ofNat']
      omega
    change [UInt8.ofNat ((a.toNat * 256 + b.toNat) / 2 ^ 8),
      UInt8.ofNat (a.toNat * 256 + b.toNat)] = _
    rw [hhigh, hlow]
    rfl
  | [] | [_] => simp at h

/-- A field that is there as a whole. -/
theorem field_of_room (data : Bytes) (h : 2 + be16 data 0 ≤ data.length) :
    ∃ v : Block 2, v.bytes = (data.drop 2).take (be16 data 0) ∧
    data = v.wire2 ++ data.drop (2 + be16 data 0) := by
  have hlen : ((data.drop 2).take (be16 data 0)).length = be16 data 0 := by
    rw [List.length_take, List.length_drop]
    omega
  have hlt : be16 data 0 < 2 ^ 16 := by
    have hhigh := (byteAt data 0).toNat_lt
    have hlow := (byteAt data (0 + 1)).toNat_lt
    rw [be16]
    omega
  obtain ⟨v, hv⟩ : ∃ v : Block 2, v.bytes = (data.drop 2).take (be16 data 0) :=
    ⟨⟨_, by rw [hlen]; exact hlt⟩, rfl⟩
  refine ⟨v, hv, ?_⟩
  have hsize := wire16_be16 (show 2 ≤ data.length by omega)
  rw [Block.wire2, hv, hlen, hsize, List.append_assoc, ← List.drop_drop, List.take_append_drop,
    List.take_append_drop]

theorem room_of_field {data : Bytes} {v : Block 2} {rest : Bytes} (h : data = v.wire2 ++ rest) :
    be16 data 0 = v.bytes.length ∧ 2 + v.bytes.length + rest.length = data.length := by
  subst h
  exact ⟨be16_wire2 v rest, by simp⟩

/-! ## What the parser recognises -/

/-- What the parser keeps of a name. -/
def storedName (name : Bytes) : Bytes := cString (name.take fqdnMax)

/-- The first host name in a list of names that is not wholly read; an empty one at its end is
passed over. -/
inductive NamesHost : Bytes → Bytes → Prop where
  | here (n : ServerName) (rest : Bytes) : n.kind = 0 → ¬ (n.name.bytes = [] ∧ rest = []) →
      NamesHost (n.wire ++ rest) n.name.bytes
  | skip (n : ServerName) {rest name : Bytes} : n.kind ≠ 0 → NamesHost rest name →
      NamesHost (n.wire ++ rest) name

/-- The host name in the first extension of type 0, behind the length of its list. -/
inductive ExtensionsHost : Bytes → Bytes → Prop where
  | here (body : Block 2) (rest : Bytes) {name : Bytes} : NamesHost (body.bytes.drop 2) name →
      ExtensionsHost (0 :: 0 :: (body.wire2 ++ rest)) name
  | skip (high low : UInt8) (body : Block 2) {rest name : Bytes} : ¬ (high = 0 ∧ low = 0) →
      ExtensionsHost rest name →
      ExtensionsHost (high :: low :: (body.wire2 ++ rest)) name

/-- The bytes begin with a block of extensions that names a host. -/
def BlockHost (bytes name : Bytes) : Prop :=
  ∃ (block : Block 2) (rest : Bytes), bytes = block.wire2 ++ rest ∧ ExtensionsHost block.bytes name

/-- The buffer behind a walk: the name if there is one, or what it was. -/
structure Leaves (Names : Bytes → Prop) (hostname result : Bytes) : Prop where
  found : ∀ name, Names name → result = storedName name
  absent : (∀ name, ¬ Names name) → result = hostname

theorem Leaves.of_none {Names : Bytes → Prop} {hostname : Bytes} (h : ∀ name, ¬ Names name) :
    Leaves Names hostname hostname :=
  ⟨fun name hname => absurd hname (h name), fun _ => rfl⟩

theorem Leaves.congr {Names Names' : Bytes → Prop} {hostname result : Bytes}
    (h : Leaves Names hostname result) (hiff : ∀ name, Names' name ↔ Names name) :
    Leaves Names' hostname result :=
  ⟨fun name hname => h.found name ((hiff name).mp hname),
    fun hnone => h.absent fun name hname => hnone name ((hiff name).mpr hname)⟩

theorem namesHost_cons (n : ServerName) (rest name : Bytes) : NamesHost (n.wire ++ rest) name ↔
    if n.kind = 0 then n.name.bytes = name ∧
    ¬ (n.name.bytes = [] ∧ rest = []) else NamesHost rest name := by
  constructor
  · intro h
    generalize hd : n.wire ++ rest = d at h
    cases h with
    | here m rest' hkind hmore =>
      obtain ⟨rfl, rfl⟩ := ServerName.wire_inj hd
      rw [if_pos hkind]
      exact ⟨rfl, hmore⟩
    | skip m hkind hrest =>
      obtain ⟨rfl, rfl⟩ := ServerName.wire_inj hd
      rwa [if_neg hkind]
  · split
    · rename_i hkind
      rintro ⟨rfl, hmore⟩
      exact .here n rest hkind hmore
    · rename_i hkind
      exact .skip n hkind

theorem NamesHost.length {data name : Bytes} (h : NamesHost data name) : 3 < data.length := by
  induction h with
  | here n rest _ hmore =>
    have hpos : 0 < n.name.bytes.length + rest.length := by
      by_contra hzero
      exact hmore ⟨List.eq_nil_of_length_eq_zero (by omega),
        List.eq_nil_of_length_eq_zero (by omega)⟩
    simp only [ServerName.wire, List.cons_append, List.length_cons, List.length_append,
      length_wire2]
    omega
  | skip n _ _ ih =>
    rw [List.length_append]
    omega

theorem extensionsHost_cons (high low : UInt8) (body : Block 2) (rest name : Bytes) :
    ExtensionsHost (high :: low :: (body.wire2 ++ rest)) name ↔
      if high = 0 ∧ low = 0 then NamesHost (body.bytes.drop 2) name
        else ExtensionsHost rest name := by
  constructor
  · intro h
    generalize hd : high :: low :: (body.wire2 ++ rest) = d at h
    cases h with
    | here body' rest' hname =>
      simp only [List.cons.injEq] at hd
      obtain ⟨hhigh, hlow, hd⟩ := hd
      obtain ⟨hbody, hrest⟩ := Block.wire2_inj hd
      rwa [if_pos ⟨hhigh, hlow⟩, hbody]
    | skip high' low' body' hne hrest =>
      simp only [List.cons.injEq] at hd
      obtain ⟨hhigh, hlow, hd⟩ := hd
      obtain ⟨hbody, hrest'⟩ := Block.wire2_inj hd
      rwa [hhigh, hlow, hrest', if_neg hne]
  · split
    · rename_i hzero
      obtain ⟨rfl, rfl⟩ := hzero
      exact .here body rest
    · rename_i hne
      exact .skip high low body hne

theorem ExtensionsHost.header {data name : Bytes} (h : ExtensionsHost data name) :
    ∃ high low, ∃ (body : Block 2) (rest : Bytes), data = high :: low :: (body.wire2 ++ rest) := by
  cases h with
  | here body rest => exact ⟨0, 0, body, rest, rfl⟩
  | skip high low body => exact ⟨high, low, body, _, rfl⟩

theorem ExtensionsHost.room {high low : UInt8} {rest name : Bytes}
    (h : ExtensionsHost (high :: low :: rest) name) : 2 + be16 rest 0 ≤ rest.length := by
  obtain ⟨high', low', body, rest', hdata⟩ := h.header
  obtain ⟨hlength, htotal⟩ := room_of_field (List.cons.inj (List.cons.inj hdata).2).2
  omega

theorem NamesHost.entry {data name : Bytes} (h : NamesHost data name) :
    ∃ (n : ServerName) (rest : Bytes), data = n.wire ++ rest := by
  cases h with
  | here n rest => exact ⟨n, rest, rfl⟩
  | skip n => exact ⟨n, _, rfl⟩

theorem NamesHost.room {kind : UInt8} {rest name : Bytes} (h : NamesHost (kind :: rest) name) :
    2 + be16 rest 0 ≤ rest.length := by
  obtain ⟨n, rest', hdata⟩ := h.entry
  obtain ⟨hlength, htotal⟩ := room_of_field (List.cons.inj hdata).2
  omega

/-! ## The walks -/

/-- The walk over the names, from any place of the list. -/
theorem serverNameLoop_leaves (data hostname : Bytes) (fuel pos : Nat)
    (hfuel : data.length ≤ fuel + pos) :
    Leaves (NamesHost (data.drop pos)) hostname (serverNameLoop data hostname fuel pos) := by
  induction fuel generalizing pos with
  | zero =>
    refine .of_none fun name h => ?_
    have hlen := h.length
    rw [List.length_drop] at hlen
    omega
  | succ fuel ih =>
    rw [serverNameLoop]
    by_cases hroom : pos + 3 < data.length
    · obtain ⟨rest, hrest⟩ : ∃ rest, data.drop (pos + 1) = rest := ⟨_, rfl⟩
      have hentry : data.drop pos = byteAt data pos :: rest := hrest ▸ drop_of_room (by omega)
      have hsize : be16 data (pos + 1) = be16 rest 0 := by rw [← hrest, be16_drop]
      have hlen : rest.length + 1 + pos = data.length := by
        rw [← hrest, List.length_drop]
        omega
      simp only [if_pos hroom, hsize]
      by_cases hover : pos + 3 + be16 rest 0 > data.length
      · rw [if_pos hover, hentry]
        refine .of_none fun name h => ?_
        have hlast := h.room
        omega
      · obtain ⟨v, hv, hfield⟩ := field_of_room rest (by omega)
        have hnext : data.drop (pos + 3 + be16 rest 0) = rest.drop (2 + be16 rest 0) := by
          rw [← hrest, List.drop_drop]
          congr 1
          omega
        have hdrop : data.drop pos =
            (ServerName.mk (byteAt data pos) v).wire ++ rest.drop (2 + be16 rest 0) := by
          rw [hentry]
          exact congrArg (byteAt data pos :: ·) hfield
        rw [if_neg hover, hdrop]
        by_cases hzero : byteAt data pos = 0
        · have hcut : (data.drop (pos + 3)).take (min (be16 rest 0) fqdnMax) =
              v.bytes.take fqdnMax := by
            rw [hv, ← hrest, List.drop_drop, List.take_take, Nat.min_comm]
          have hmore : ¬ (v.bytes = [] ∧ rest.drop (2 + be16 rest 0) = []) := by
            rintro ⟨hname, hend⟩
            obtain ⟨-, htotal⟩ := room_of_field hfield
            rw [hname, hend] at htotal
            simp only [List.length_nil] at htotal
            omega
          rw [if_pos hzero, hcut]
          refine ⟨fun name h => ?_, fun hnone => absurd (.here _ _ hzero hmore) (hnone v.bytes)⟩
          rw [namesHost_cons, if_pos hzero] at h
          rw [← h.1]
          rfl
        · rw [if_neg hzero]
          refine (ih (pos + 3 + be16 rest 0) (by omega)).congr fun name => ?_
          rw [namesHost_cons, if_neg hzero, hnext]
    · rw [if_neg hroom]
      refine .of_none fun name h => ?_
      have hlen := h.length
      rw [List.length_drop] at hlen
      omega

theorem parseServerNameExtension_leaves (data hostname : Bytes) :
    Leaves (NamesHost (data.drop 2)) hostname (parseServerNameExtension data hostname) :=
  serverNameLoop_leaves data hostname data.length 2 (by omega)

theorem ExtensionsHost.length {data name : Bytes}
    (h : ExtensionsHost data name) : 4 ≤ data.length := by
  obtain ⟨high, low, body, rest, rfl⟩ := h.header
  simp only [List.length_cons, List.length_append, length_wire2]
  omega

/-- The walk over the extensions, from any place of the block. -/
theorem extensionsLoop_leaves (data hostname : Bytes) (fuel pos : Nat)
    (hfuel : data.length ≤ fuel + pos) :
    Leaves (ExtensionsHost (data.drop pos)) hostname (extensionsLoop data hostname fuel pos) := by
  induction fuel generalizing pos with
  | zero =>
    refine .of_none fun name h => ?_
    have hlen := h.length
    rw [List.length_drop] at hlen
    omega
  | succ fuel ih =>
    rw [extensionsLoop]
    by_cases hroom : pos + 4 ≤ data.length
    · obtain ⟨rest, hrest⟩ : ∃ rest, data.drop (pos + 2) = rest := ⟨_, rfl⟩
      have hheader : data.drop pos = byteAt data pos :: byteAt data (pos + 1) :: rest := by
        rw [drop_of_room (show pos < data.length by omega), drop_of_room (by omega), hrest]
      have hsize : be16 data (pos + 2) = be16 rest 0 := by rw [← hrest, be16_drop]
      have hlen : rest.length + 2 + pos = data.length := by
        rw [← hrest, List.length_drop]
        omega
      simp only [if_pos hroom, hsize]
      by_cases hover : pos + 4 + be16 rest 0 > data.length
      · -- the walk goes on behind the block, where nothing is left
        have hend (name : Bytes) : ¬ ExtensionsHost (data.drop (pos + 4 + be16 rest 0)) name := by
          intro hname
          have hlen := hname.length
          rw [List.length_drop] at hlen
          omega
        rw [if_pos hover, (ih (pos + 4 + be16 rest 0) (by omega)).absent hend, ite_self, hheader]
        refine .of_none fun name h => ?_
        have hlast := h.room
        omega
      · obtain ⟨body, hbody, hfield⟩ := field_of_room rest (by omega)
        have hnext : data.drop (pos + 4 + be16 rest 0) = rest.drop (2 + be16 rest 0) := by
          rw [← hrest, List.drop_drop]
          congr 1
          omega
        have hcut : (data.drop (pos + 4)).take (be16 rest 0) = body.bytes := by
          rw [hbody, ← hrest, List.drop_drop]
        have hdrop : data.drop pos = byteAt data pos :: byteAt data (pos + 1) ::
            (body.wire2 ++ rest.drop (2 + be16 rest 0)) := by
          rw [hheader, ← hfield]
        rw [hdrop]
        by_cases hzero : byteAt data pos = 0 ∧ byteAt data (pos + 1) = 0
        · rw [if_pos hzero, if_neg hover, hcut]
          refine (parseServerNameExtension_leaves body.bytes hostname).congr fun name => ?_
          rw [extensionsHost_cons, if_pos hzero]
        · rw [if_neg hzero]
          refine (ih (pos + 4 + be16 rest 0) (by omega)).congr fun name => ?_
          rw [extensionsHost_cons, if_neg hzero, hnext]
    · rw [if_neg hroom]
      refine .of_none fun name h => ?_
      have hlen := h.length
      rw [List.length_drop] at hlen
      omega

theorem parseExtensions_leaves (data hostname : Bytes) :
    Leaves (ExtensionsHost data) hostname (parseExtensions data hostname) :=
  extensionsLoop_leaves data hostname data.length 0 (by omega)

/-! ## The record -/

theorem BlockHost.field {bytes name : Bytes} (h : BlockHost bytes name) :
    2 + be16 bytes 0 ≤ bytes.length := by
  obtain ⟨block, rest, hbytes, -⟩ := h
  obtain ⟨hlength, htotal⟩ := room_of_field hbytes
  omega

/-- A block that is there as a whole is walked through. -/
theorem parseExtensions_block {bytes : Bytes} (h : 2 + be16 bytes 0 ≤ bytes.length)
    (hostname : Bytes) :
    Leaves (BlockHost bytes) hostname
      (parseExtensions ((bytes.drop 2).take (be16 bytes 0)) hostname) := by
  obtain ⟨block, hblock, hbytes⟩ := field_of_room _ h
  rw [← hblock]
  refine (parseExtensions_leaves block.bytes hostname).congr fun name =>
    ⟨?_, fun hname => ⟨block, _, hbytes, hname⟩⟩
  rintro ⟨block', rest, hbytes', hname⟩
  obtain ⟨rfl, -⟩ := Block.wire2_inj (hbytes.symm.trans hbytes')
  exact hname

namespace Record

variable (r : Record)

/-- The record up to and including the version and the random number. -/
def head : Bytes :=
  [0x16, 3, r.minor] ++ wire16 (4 + (r.fixed ++ r.fields).length + r.tail.more.length) ++ [1] ++
    wire24 (r.fixed ++ r.fields).length ++ r.fixed

theorem length_head : r.head.length = 43 := by
  simp [head, r.fixed_length]

theorem length_fields : r.fields.length =
    4 + r.sessionId.bytes.length + r.cipherSuites.bytes.length + r.compression.bytes.length +
      r.tail.own.length := by
  simp only [fields, List.length_append, length_wire1, length_wire2]
  omega

theorem length_wire : r.wire.length = 43 + r.fields.length + r.tail.more.length := by
  simp [wire, r.fixed_length]
  omega

/-- The fields behind one another; each position of the parser is the length of
what is in front of the field. -/
theorem wire_fields :
    r.head ++ [UInt8.ofNat r.sessionId.bytes.length] <+: r.wire ∧
    r.head ++ r.sessionId.wire1 ++ wire16 r.cipherSuites.bytes.length <+: r.wire ∧
    r.head ++ r.sessionId.wire1 ++ r.cipherSuites.wire2 ++
      [UInt8.ofNat r.compression.bytes.length] <+: r.wire ∧
    r.wire = r.head ++ r.sessionId.wire1 ++ r.cipherSuites.wire2 ++ r.compression.wire1 ++
      r.tail.bytes := by
  simp [head, wire, fields, Block.wire1, Block.wire2, Tail.bytes]

/-- What stands behind the compression methods is read as a block of extensions, whether or not the
message has one. -/
theorem parseClientHello_leaves (hostname : Bytes) :
    Leaves (BlockHost r.tail.bytes) hostname (parseClientHello 3 r.minor r.wire hostname) := by
  have hhead := r.length_head
  have hfields := r.length_fields
  have hsid := r.sessionId.length_lt
  have hcomp := r.compression.length_lt
  have hlen := r.length_wire
  obtain ⟨h1, h2, h3, h4⟩ := r.wire_fields
  have hkind : byteAt r.wire 5 = 1 := rfl
  have h5 := byteAt_prefix h1 (i := 43) hhead.symm
  have h6 := be16_prefix h2 r.cipherSuites.length_lt (i := 43 + 1 + r.sessionId.bytes.length)
    (by simp [hhead]; omega)
  have h7 :=
    byteAt_prefix h3 (i := 43 + 1 + r.sessionId.bytes.length + 2 + r.cipherSuites.bytes.length)
    (by simp [hhead]; omega)
  have h5' : (byteAt r.wire 43).toNat = r.sessionId.bytes.length := by
    rw [h5, UInt8.toNat_ofNat']
    omega
  have h7' :
    (byteAt r.wire (43 + 1 + r.sessionId.bytes.length + 2 + r.cipherSuites.bytes.length)).toNat =
      r.compression.bytes.length := by
    rw [h7, UInt8.toNat_ofNat']
    omega
  have htail : r.tail.bytes.length = r.tail.own.length + r.tail.more.length := List.length_append
  unfold parseClientHello
  simp only [tlsHeaderLen, tlsHandshakeTypeClientHello, hkind, Nat.reduceAdd, h5', h6, h7',
    hlen, hfields]
  rw [if_neg (by omega), if_neg (by simp), if_neg (by omega), if_neg (by omega), if_neg (by omega)]
  obtain ⟨pos, hpos⟩ : ∃ pos, 43 + 1 + r.sessionId.bytes.length + 2 +
    r.cipherSuites.bytes.length + 1 +
    r.compression.bytes.length = pos := ⟨_, rfl⟩
  have hdrop : r.wire.drop pos = r.tail.bytes := by
    rw [h4, ← hpos]
    exact List.drop_left' (by simp [hhead]; omega)
  have hsize : be16 r.wire pos = be16 r.tail.bytes 0 := by rw [← hdrop, be16_drop, Nat.add_zero]
  rw [hpos, hsize, ← List.drop_drop, hdrop]
  by_cases hshort : r.tail.bytes.length < 2
  · -- too short for the length of a block, whether or not the version is that of SSL 3.0
    rw [if_pos (show pos + 2 > _ by omega), ite_self]
    refine .of_none fun name h => ?_
    have hfield := h.field
    omega
  · rw [if_neg (by omega), if_neg (by omega)]
    split
    · refine .of_none fun name h => ?_
      have hfield := h.field
      omega
    · exact parseExtensions_block (by omega) hostname

theorem take_wire (rest : Bytes) :
    (r.wire ++ rest).take (43 + r.fields.length + r.tail.more.length) = r.wire := by
  rw [← r.length_wire, List.take_left]

/-- The parser reads the ClientHello of the record, whatever follows the record. -/
theorem parseTlsHeader_leaves (abi : Abi) (rest hostname : Bytes) :
    Leaves (BlockHost r.tail.bytes) hostname (parseTlsHeader abi (r.wire ++ rest) hostname) := by
  have hlt := r.length_lt
  have hfields := r.length_fields
  have hlen := r.length_wire
  have hsize : be16 (r.wire ++ rest) 3 = 4 + (r.fixed ++ r.fields).length + r.tail.more.length :=
    be16_prefix (b := [0x16, 3, r.minor]) (by simp [wire])
      (by simp only [List.length_append, r.fixed_length]; omega) rfl
  have hmajor : majorBelow3 abi 3 = false := by cases abi <;> rfl
  have h0 : byteAt (r.wire ++ rest) 0 = 0x16 := rfl
  have h1 : byteAt (r.wire ++ rest) 1 = 3 := rfl
  have h2 : byteAt (r.wire ++ rest) 2 = r.minor := rfl
  have hrecord : be16 (r.wire ++ rest) 3 + tlsHeaderLen =
      43 + r.fields.length + r.tail.more.length := by
    rw [hsize, tlsHeaderLen, List.length_append, r.fixed_length]
    omega
  unfold parseTlsHeader
  simp only [hrecord, h0, h1, h2, hmajor, r.take_wire rest]
  rw [if_neg (by simp [tlsHeaderLen, hlen]; omega), if_neg fun hbit => hbit.1 (by decide),
    if_neg (by decide), if_neg (by simp), if_neg (by simp [hlen])]
  exact r.parseClientHello_leaves hostname

end Record

/-! ## The names of a record -/

theorem wireNames_cons (n : ServerName) (names : List ServerName) :
    wireNames (n :: names) = n.kind ::
      (wire16 n.name.bytes.length ++ (n.name.bytes ++ wireNames names)) := by
  simp [wireNames, ServerName.wire, Block.wire2]

theorem length_wireNames_ge (names : List ServerName) :
    3 * names.length ≤ (wireNames names).length := by
  induction names with
  | nil => simp [wireNames]
  | cons n names ih =>
    simp only [wireNames_cons, List.length_cons, List.length_append, length_wire16]
    omega

theorem wireExtensions_cons (x : Extension) (exts : List Extension) :
    wireExtensions (x :: exts) = x.wire ++ wireExtensions exts := rfl

theorem length_wireExtensions_ge (exts : List Extension) :
    4 * exts.length ≤ (wireExtensions exts).length := by
  induction exts with
  | nil => simp [wireExtensions]
  | cons x exts ih =>
    have hx : x.wire.length = 4 + x.body.length := by
      simp [Extension.wire]
      omega
    simp only [wireExtensions_cons, List.length_cons, List.length_append]
    omega

theorem Extension.length_body_lt (x : Extension) : x.body.length < 2 ^ 16 := by
  cases x with
  | serverName names hlt =>
    simp only [body, List.length_append, length_wire16]
    omega
  | other high low hne body => exact body.length_lt

/-- The first host name is empty and the last entry of the list. -/
def EndsEmpty : List ServerName → Prop
  | [] => False
  | n :: names => if n.kind = 0 then n.name.bytes = [] ∧ names = [] else EndsEmpty names

theorem wireNames_eq_nil {names : List ServerName} : wireNames names = [] ↔ names = [] := by
  constructor
  · intro h
    have hle := length_wireNames_ge names
    rw [h, List.length_nil] at hle
    exact List.eq_nil_of_length_eq_zero (by omega)
  · rintro rfl
    rfl

/-- An empty host name at the end of the list is the one name that is not read. -/
theorem namesHost_wire (names : List ServerName) (name : Bytes) : NamesHost (wireNames names) name ↔
    (names.find? (·.kind = 0)).map (fun n => n.name.bytes) = some name ∧ ¬ EndsEmpty names := by
  induction names with
  | nil =>
    refine ⟨fun h => ?_, fun h => ?_⟩
    · exact absurd h.length (by simp [wireNames])
    · simp at h
  | cons n names ih =>
    rw [show wireNames (n :: names) = n.wire ++ wireNames names from rfl, namesHost_cons, EndsEmpty]
    by_cases hkind : n.kind = 0
    · rw [if_pos hkind, if_pos hkind, List.find?_cons_of_pos (by simp [hkind]), Option.map_some,
        Option.some.injEq, wireNames_eq_nil]
    · rw [if_neg hkind, if_neg hkind, List.find?_cons_of_neg (by simpa using hkind)]
      exact ih

theorem Extension.wire_append (x : Extension) (rest : Bytes) :
    x.wire ++ rest = x.high :: x.low ::
      ((Block.mk x.body x.length_body_lt : Block 2).wire2 ++ rest) := by
  simp [wire, Block.wire2]

theorem extensionsHost_wire (exts : List Extension) (name : Bytes) :
    ExtensionsHost (wireExtensions exts) name ↔
    ∃ names, nameList exts = some names ∧ NamesHost (wireNames names) name := by
  induction exts with
  | nil =>
    refine ⟨fun h => ?_, fun h => ?_⟩
    · exact absurd h.length (by simp [wireExtensions])
    · simp [nameList] at h
  | cons x exts ih =>
    rw [wireExtensions_cons, x.wire_append, extensionsHost_cons]
    cases x with
    | serverName names hlt =>
      rw [if_pos ⟨rfl, rfl⟩]
      constructor
      · exact fun h => ⟨names, rfl, h⟩
      · rintro ⟨names', hnames, h⟩
        obtain rfl := Option.some.inj hnames
        exact h
    | other high low hne body => exact (iff_of_eq (if_neg hne)).trans ih

namespace Tail

/-- The host names that are read from a tail with a block. -/
theorem blockHost_block (exts : List Extension) (more name : Bytes)
    (hlt : (wireExtensions exts).length < 2 ^ 16) :
    BlockHost (Tail.block exts more).bytes name ↔
    ∃ names, nameList exts = some names ∧ NamesHost (wireNames names) name := by
  rw [← extensionsHost_wire]
  have hbytes : (Tail.block exts more).bytes =
    (Block.mk (wireExtensions exts) hlt : Block 2).wire2 ++ more := rfl
  constructor
  · rintro ⟨block, rest, hblock, h⟩
    obtain ⟨rfl, -⟩ := Block.wire2_inj (hbytes.symm.trans hblock)
    exact h
  · exact fun h => ⟨_, more, hbytes, h⟩

end Tail

theorem storedName_nonzero {name : Bytes} (hzero : 0 ∉ name) :
    storedName name = name.take fqdnMax := by
  rw [storedName, cString, List.takeWhile_eq_self_iff]
  intro c hc
  simpa using fun h : c = 0 => hzero (h ▸ List.mem_of_mem_take hc)

theorem Record.length_block (r : Record) {exts : List Extension} {more : Bytes}
    (h : r.tail = .block exts more) :
    (wireExtensions exts).length < 2 ^ 16 := by
  have hlt := r.length_lt
  rw [h, Tail.own, List.length_append, length_wire16] at hlt
  omega

/-- A block of extensions whose host name, if there is one, is not an empty one at the end of the
list. -/
theorem Record.parseTlsHeader_block (r : Record) {exts : List Extension} {more : Bytes}
    (h : r.tail = .block exts more)
    (hkeep : ∀ names, nameList exts = some names → ¬ EndsEmpty names) (abi : Abi)
    (rest hostname : Bytes) :
    parseTlsHeader abi (r.wire ++ rest) hostname =
      ((hostName exts).map storedName).getD hostname := by
  have hleaves := r.parseTlsHeader_leaves abi rest hostname
  rw [h] at hleaves
  have hhost (name : Bytes) := Tail.blockHost_block exts more name (r.length_block h)
  cases hname : hostName exts with
  | none =>
    refine hleaves.absent fun name hblock => ?_
    obtain ⟨names, hnames, hfirst⟩ := (hhost name).mp hblock
    have hsome := ((namesHost_wire names name).mp hfirst).1
    rw [hostName, hnames, Option.bind_some, hsome] at hname
    cases hname
  | some name =>
    obtain ⟨n, hn, hbytes⟩ := Option.map_eq_some_iff.mp hname
    obtain ⟨names, hnames, hfind⟩ := Option.bind_eq_some_iff.mp hn
    refine hleaves.found name
      ((hhost name).mpr ⟨names, hnames, (namesHost_wire names name).mpr ⟨?_, hkeep names hnames⟩⟩)
    rw [hfind, Option.map_some, hbytes]

/-- An empty host name at the end of the list is not stored. -/
theorem Record.parseTlsHeader_endsEmpty (r : Record) {exts : List Extension} {more : Bytes}
    (h : r.tail = .block exts more) {names : List ServerName} (hnames : nameList exts = some names)
    (hend : EndsEmpty names) (abi : Abi) (rest hostname : Bytes) :
    parseTlsHeader abi (r.wire ++ rest) hostname = hostname := by
  have hleaves := r.parseTlsHeader_leaves abi rest hostname
  rw [h] at hleaves
  refine hleaves.absent fun name hblock => ?_
  obtain ⟨names', hnames', hfirst⟩ :=
    (Tail.blockHost_block exts more name (r.length_block h)).mp hblock
  obtain rfl := Option.some.inj (hnames.symm.trans hnames')
  exact ((namesHost_wire names name).mp hfirst).2 hend

theorem EndsEmpty.find {names : List ServerName} (h : EndsEmpty names) :
    (names.find? (·.kind = 0)).map (fun n => n.name.bytes) = some [] := by
  induction names with
  | nil => exact h.elim
  | cons n names ih =>
    rw [EndsEmpty] at h
    by_cases hkind : n.kind = 0
    · rw [if_pos hkind] at h
      rw [List.find?_cons_of_pos (by simp [hkind]), Option.map_some, h.1]
    · rw [if_neg hkind] at h
      rw [List.find?_cons_of_neg (by simpa using hkind)]
      exact ih h

theorem EndsEmpty.hostName {exts : List Extension} {names : List ServerName}
    (hnames : nameList exts = some names) (h : EndsEmpty names) : hostName exts = some [] := by
  rw [Tls.hostName, hnames, Option.bind_some]
  exact h.find

theorem ClientHello.wire_record (h : ClientHello) : h.record.wire = h.wire := by
  have hlen : 4 + (h.record.fixed ++ h.record.fields).length + h.record.tail.more.length =
      h.message.length + 4 := by
    simp [record, Record.fields, Tail.own, Tail.more, message]
    omega
  have hmsg : h.record.fixed ++ (h.record.fields ++ h.record.tail.more) = h.message := by
    simp [record, Record.fields, Tail.own, Tail.more, message]
  have hmsg' : h.record.fixed ++ h.record.fields = h.message := by
    simpa [record, Tail.more] using hmsg
  rw [Record.wire, hlen, hmsg, hmsg', wire]
  rfl

/-- In an empty buffer the parser finds the server name of every ClientHello, whatever follows the
record. -/
theorem ClientHello.parseTlsHeader_wire (h : ClientHello) (abi : Abi) (rest : Bytes) :
    parseTlsHeader abi (h.wire ++ rest) [] = ((h.serverName).map storedName).getD [] := by
  rw [← h.wire_record, serverName]
  by_cases hend : ∃ names, nameList h.extensions = some names ∧ EndsEmpty names
  · -- an empty name leaves no trace in an empty buffer
    obtain ⟨names, hnames, hempty⟩ := hend
    rw [h.record.parseTlsHeader_endsEmpty rfl hnames hempty, hempty.hostName hnames]
    rfl
  · exact h.record.parseTlsHeader_block rfl
      (fun names hnames hempty => hend ⟨names, hnames, hempty⟩) abi rest []

/-! ## The name that is found -/

/-- The first host name is stored, and without one the buffer is left as it was. -/
structure NameFound (abi : Abi) (r : Record) (rest hostname : Bytes) : Prop where
  found : ∀ name, r.tail.serverName = some name → 0 ∉ name →
    parseTlsHeader abi (r.wire ++ rest) hostname = name.take fqdnMax
  unchanged : r.tail.serverName = none → parseTlsHeader abi (r.wire ++ rest) hostname = hostname

/-- Behind a message without a block nothing reads as a block that names another host than the
buffer holds; the first host name of a block is not an empty one at the end of the list, unless the
buffer is empty. -/
def Tail.Recognised (hostname : Bytes) : Tail → Prop
  | .none more => ∀ name, BlockHost more name → storedName name = hostname
  | .block exts _ => ∀ names, nameList exts = some names → EndsEmpty names → hostname = []

/-- The server name is read from exactly the records whose tail is recognised as what it is. -/
theorem Record.server_name_found_iff (abi : Abi) (r : Record) (rest hostname : Bytes) :
    NameFound abi r rest hostname ↔ r.tail.Recognised hostname := by
  have hleaves := r.parseTlsHeader_leaves abi rest hostname
  cases htail : r.tail with
  | none more =>
    rw [htail] at hleaves
    constructor
    · intro h name hblock
      rw [← hleaves.found name hblock]
      exact h.unchanged (by rw [htail]; rfl)
    · intro h
      refine ⟨fun name hname => ?_, fun _ => ?_⟩
      · rw [htail] at hname
        cases hname
      · by_cases hblock : ∃ name, BlockHost more name
        · obtain ⟨name, hblock⟩ := hblock
          rw [hleaves.found name hblock, h name hblock]
        · exact hleaves.absent fun name hname => hblock ⟨name, hname⟩
  | block exts more =>
    constructor
    · intro h names hnames hend
      have hname : r.tail.serverName = some [] := by
        rw [htail]
        exact hend.hostName hnames
      rw [← r.parseTlsHeader_endsEmpty htail hnames hend abi rest hostname]
      exact h.found [] hname (by simp)
    · intro h
      by_cases hend : ∃ names, nameList exts = some names ∧ EndsEmpty names
      · obtain ⟨names, hnames, hempty⟩ := hend
        have hparse := r.parseTlsHeader_endsEmpty htail hnames hempty abi rest hostname
        refine ⟨fun name hname _ => ?_, fun _ => hparse⟩
        rw [htail, Tail.serverName, hempty.hostName hnames] at hname
        rw [hparse, h names hnames hempty, ← Option.some.inj hname]
        rfl
      · have hparse :=
          r.parseTlsHeader_block htail (fun names hnames hempty => hend ⟨names, hnames, hempty⟩) abi
          rest hostname
        refine ⟨fun name hname hzero => ?_, fun hnone => ?_⟩
        · rw [htail, Tail.serverName] at hname
          rw [hparse, hname]
          exact storedName_nonzero hzero
        · rw [htail, Tail.serverName] at hnone
          rw [hparse, hnone]
          rfl

theorem length_zeros : (List.replicate 34 (0 : UInt8)).length = 34 := rfl

def Block.empty : Block 1 := ⟨[], by decide⟩

/-- The null compression method. -/
def Block.uncompressed : Block 1 := ⟨[0], by decide⟩

/-- A record of version 3.1 whose ClientHello has no extensions, with 15 more bytes that read as a
block naming `evil`. -/
def Record.followed : Record where
  minor := 1
  fixed := List.replicate 34 0
  fixed_length := length_zeros
  sessionId := .empty
  cipherSuites := ⟨[0, 0x2f], by decide⟩
  compression := .uncompressed
  tail := .none [0, 13, 0, 0, 0, 9, 0, 7, 0, 0, 4, 101, 118, 105, 108]
  length_lt := by decide

/-- A record that names the empty host, behind an entry of another kind. -/
def Record.namesEmpty : Record where
  minor := 1
  fixed := List.replicate 34 0
  fixed_length := length_zeros
  sessionId := .empty
  cipherSuites := ⟨[0, 0x2f], by decide⟩
  compression := .uncompressed
  tail := .block [.other 0 10 (by decide) ⟨[1, 2], by decide⟩,
    .serverName [⟨7, ⟨[9], by decide⟩⟩, ⟨0, ⟨[], by decide⟩⟩] (by decide)] []
  length_lt := by decide

/-- The bytes behind a message are read as its extensions, and an empty name leaves the old one. -/
theorem Record.server_name_misread :
    ¬ (∀ (abi : Abi) (r : Record) (rest hostname : Bytes), NameFound abi r rest hostname) ∧
    Record.followed.tail.serverName = none ∧
    parseTlsHeader .x86_64 Record.followed.wire [] = [101, 118, 105, 108] ∧
    Record.namesEmpty.tail.serverName = some [] ∧
    parseTlsHeader .x86_64 Record.namesEmpty.wire [98] = [98] := by
  refine ⟨fun h => ?_, rfl, by decide, rfl, by decide⟩
  have hkept := (h .x86_64 Record.followed [] []).unchanged rfl
  exact absurd hkept (by decide)

/-! ## One reading

No record is the beginning of two ClientHellos with different extensions. -/

theorem wireNames_inj (a b : List ServerName) (h : wireNames a = wireNames b) : a = b := by
  induction a generalizing b with
  | nil =>
    have := length_wireNames_ge b
    rw [← h] at this
    exact (List.eq_nil_of_length_eq_zero (by simpa [wireNames] using this)).symm
  | cons n a ih =>
    cases b with
    | nil =>
      have := length_wireNames_ge (n :: a)
      rw [h] at this
      simp [wireNames] at this
    | cons m b =>
      rw [wireNames_cons, wireNames_cons, List.cons.injEq] at h
      obtain ⟨hbytes, hrest⟩ := block_inj n.name.length_lt m.name.length_lt h.2
      rw [ServerName.ext h.1 (Block.ext hbytes), ih b hrest]

theorem Extension.wire_inj {a b : Extension} {x y : Bytes}
    (h : a.wire ++ x = b.wire ++ y) : a = b ∧ x = y := by
  simp only [Extension.wire, List.cons_append, List.cons.injEq, List.append_assoc] at h
  obtain ⟨hbody, hrest⟩ := block_inj a.length_body_lt b.length_body_lt h.2.2
  refine ⟨?_, hrest⟩
  cases a with
  | serverName names hlt =>
    cases b with
    | serverName names' hlt' =>
      obtain ⟨-, hnames⟩ := wire16_inj (by omega) (by omega) hbody
      have := wireNames_inj names names' hnames
      subst this
      rfl
    | other high low hne body => exact absurd ⟨h.1.symm, h.2.1.symm⟩ hne
  | other high low hne body =>
    cases b with
    | serverName names hlt => exact absurd ⟨h.1, h.2.1⟩ hne
    | other high' low' hne' body' =>
      have hhigh : high = high' := h.1
      have hlow : low = low' := h.2.1
      have heq : body = body' := Block.ext hbody
      subst hhigh hlow heq
      rfl

theorem wireExtensions_inj (a b : List Extension)
    (h : wireExtensions a = wireExtensions b) : a = b := by
  induction a generalizing b with
  | nil =>
    have := length_wireExtensions_ge b
    rw [← h] at this
    exact (List.eq_nil_of_length_eq_zero (by simpa [wireExtensions] using this)).symm
  | cons x a ih =>
    cases b with
    | nil =>
      have := length_wireExtensions_ge (x :: a)
      rw [h] at this
      simp [wireExtensions] at this
    | cons y b =>
      obtain ⟨hx, hrest⟩ := Extension.wire_inj (by simpa [wireExtensions_cons] using h)
      rw [hx, ih b hrest]

theorem ClientHello.extensions_unique {g h : ClientHello} {x y : Bytes}
    (heq : g.wire ++ x = h.wire ++ y) :
    g.extensions = h.extensions := by
  have hg := g.length_message
  have hh := h.length_message
  have hg' := g.record_lt
  have hh' := h.record_lt
  simp only [ClientHello.wire, List.cons_append, List.nil_append, List.cons.injEq,
    List.append_assoc] at heq
  obtain ⟨hlen, hrest⟩ := wire16_inj (by omega) (by omega) heq.2.2.2
  have hsame : g.message.length = h.message.length := by omega
  rw [hsame] at hrest
  have hmsg := (List.append_inj (List.append_cancel_left (List.cons.inj hrest).2) hsame).1
  simp only [ClientHello.message] at hmsg
  have h1 := (List.append_inj hmsg (by rw [g.fixed_length, h.fixed_length])).2
  have h2 := (Block.wire2_inj (Block.wire1_inj h1)).2
  have h3 := Block.wire1_inj h2
  exact wireExtensions_inj _ _ (wire16_inj (by omega) (by omega) h3).2

end PdaNetClient.Tls
