import PdaNetClient.Checksum
import PdaNetClient.Reading
import PdaNetClient.SessionTable

/-!
# `handle_ip`

From the bytes read from tun to the call of a protocol handler, and the first lines of the
handlers, where they find their headers and data. Pointers are offsets from the start of
the packet; the buffer is part of a larger memory, so a read behind the packet has a value.
-/
namespace PdaNetClient.Ip

open Reading Table
open Http (Memory)
open Tcp (Addr)

set_option autoImplicit false

abbrev Read := Reader Nat UInt8

/-- What becomes of a packet; the walk over the extension headers of IPv6 may not end. -/
inductive Verdict (α : Type) where
  | pass (a : α)
  | drop
  | loops
  deriving DecidableEq, Repr

/-! ## Fields and casts -/

def u8 (i : Nat) : Read Nat := do
  let a ← look i
  pure a.toNat

def be16 (i : Nat) : Read Nat := do
  let a ← u8 i
  let b ← u8 (i + 1)
  pure (256 * a + b)

/-- A 16-bit field without `ntohs`. -/
def le16 (i : Nat) : Read Nat := do
  let a ← u8 i
  let b ← u8 (i + 1)
  pure (a + 256 * b)

def be32 (i : Nat) : Read U32 := do
  let a ← be16 i
  let b ← be16 (i + 2)
  pure (BitVec.ofNat 32 (65536 * a + b))

section fields

variable (i : Nat) (mem : Memory) (P : Nat → Prop)

@[simp] theorem value_u8 : (u8 i).value mem = (mem i).toNat := rfl
@[simp] theorem value_be16 : (be16 i).value mem = 256 * (mem i).toNat + (mem (i + 1)).toNat := rfl
@[simp] theorem value_le16 : (le16 i).value mem = (mem i).toNat + 256 * (mem (i + 1)).toNat := rfl

@[simp] theorem within_u8 : (u8 i).Within P mem ↔ P i := by simp [u8]
@[simp] theorem within_be16 : (be16 i).Within P mem ↔ P i ∧ P (i + 1) := by simp [be16]
@[simp] theorem within_le16 : (le16 i).Within P mem ↔ P i ∧ P (i + 1) := by simp [le16]
@[simp] theorem within_be32 :
    (be32 i).Within P mem ↔ (P i ∧ P (i + 1)) ∧ P (i + 2) ∧ P (i + 3) := by
  simp [be32]

end fields

def castU8 (x : Int) : Nat := (x % 256).toNat

def castU16 (x : Int) : Nat := (x % 65536).toNat

/-- A difference in `size_t`. -/
def sizeSub (abi : Abi) (a b : Nat) : Nat := (((a : Int) - b) % (2 ^ abi.sizeBits : Nat)).toNat

def sizeofIphdr : Nat := 20
def sizeofIp6Hdr : Nat := 40
def sizeofIcmp : Nat := 28
def sizeofUdphdr : Nat := 8
def sizeofTcphdr : Nat := 20

def ipprotoIcmp : UInt8 := 1
def ipprotoTcp : UInt8 := 6
def ipprotoUdp : UInt8 := 17
def ipprotoIcmpv6 : UInt8 := 58

def isIcmp (protocol : UInt8) : Prop := protocol = ipprotoIcmp ∨ protocol = ipprotoIcmpv6

instance (protocol : UInt8) : Decidable (isIcmp protocol) := inferInstanceAs (Decidable (_ ∨ _))

def isLowerLayer (protocol : UInt8) : Prop :=
  protocol = 0 ∨ protocol = 60 ∨ protocol = 43 ∨ protocol = 44 ∨ protocol = 51 ∨ protocol = 50 ∨
    protocol = 60 ∨
    protocol = 135

instance (protocol : UInt8) : Decidable (isLowerLayer protocol) :=
  inferInstanceAs (Decidable (_ ∨ _))

def isUpperLayer (protocol : UInt8) : Prop :=
  protocol = ipprotoTcp ∨ protocol = ipprotoUdp ∨ protocol = ipprotoIcmp ∨ protocol = ipprotoIcmpv6

instance (protocol : UInt8) : Decidable (isUpperLayer protocol) :=
  inferInstanceAs (Decidable (_ ∨ _))

/-! ## Protocol and payload -/

structure Located where
  protocol : UInt8
  payload : Nat
  deriving DecidableEq, Repr

def ipMf : Nat := 0x2000

def androidLogWarn : Nat := 5

/-- `int loglevel = ANDROID_LOG_WARN;`, and nothing sets it to anything else. -/
def loglevel : Nat := androidLogWarn

/-- The test of the header's checksum, made while debugging. -/
def checksumFails : Read Bool :=
  if loglevel < androidLogWarn then do
    let header ← lookMany 0 sizeofIphdr
    pure (decide (calcChecksum 0 header = 0))
  else pure false

theorem checksumFails_eq : checksumFails = pure false := if_neg (Nat.lt_irrefl _)

def locateIp4 (length : Nat) : Read (Verdict Located) := do
  if length < sizeofIphdr then
    return .drop
  let protocol ← look 9
  let fragOff ← le16 6
  if fragOff &&& ipMf ≠ 0 then
    return .drop
  let ihl ← u8 0
  let ipoptlen := castU8 (((ihl % 16 : Nat) - 5) * 4)
  let totLen ← be16 2
  if totLen ≠ length then
    return .drop
  let fails ← checksumFails
  if fails then
    return .drop
  return .pass ⟨protocol, sizeofIphdr + ipoptlen⟩

/-- The loop over extension headers, with the protocol and the offset behind it. -/
def walk : Nat → UInt8 → Nat → Read (Option (UInt8 × Nat))
  | 0, _, _ => pure none
  | fuel + 1, protocol, off => do
    let nxt ← look off
    if isLowerLayer nxt ∧ ¬ isUpperLayer protocol then
      let len ← u8 (off + 1)
      walk fuel nxt (castU16 (off + (8 + len) : Nat))
    else
      pure (some (protocol, off))

def locateIp6 (fuel length : Nat) : Read (Verdict Located) := do
  if length < sizeofIp6Hdr then
    return .drop
  let nxt ← look 6
  if isUpperLayer nxt then
    return .pass ⟨nxt, sizeofIp6Hdr⟩
  match ← walk fuel nxt sizeofIp6Hdr with
  | none => return .loops
  | some (protocol, off) =>
    if isUpperLayer protocol then
      return .pass ⟨protocol, sizeofIp6Hdr + off⟩
    return .pass ⟨nxt, sizeofIp6Hdr⟩

def locate (version fuel length : Nat) : Read (Verdict Located) :=
  if version = 4 then locateIp4 length
  else if version = 6 then locateIp6 fuel length
  else pure .drop

/-! ## Addresses, ports and flags -/

/-- The bytes of an address, as they are stored in the union. -/
def addrOf (bytes : Bytes) : Addr where
  ip6 := (bytes ++ List.replicate 16 0).take 16
  length_eq := by simp

/-- What `handle_ip` knows of a packet when it has found its transport header. -/
structure Flow where
  version : Nat
  protocol : UInt8
  saddr : Addr
  daddr : Addr
  sport : Nat
  dport : Nat
  syn : Bool
  deriving DecidableEq, Repr

def readAddrs (version : Nat) : Read (Addr × Addr) :=
  if version = 4 then do
    let saddr ← lookMany 12 4
    let daddr ← lookMany 16 4
    pure (addrOf saddr, addrOf daddr)
  else do
    let saddr ← lookMany 8 16
    let daddr ← lookMany 24 16
    pure (addrOf saddr, addrOf daddr)

/-- "Get ports & flags"; there is no result for a transport header that is too short. -/
def readFlow (abi : Abi) (length version : Nat) (p : Located) : Read (Option Flow) := do
  let addrs ← readAddrs version
  let rest := sizeSub abi length p.payload
  if isIcmp p.protocol then
    if rest < sizeofIcmp then
      return none
    let id ← be16 (p.payload + 4)
    return some ⟨version, p.protocol, addrs.1, addrs.2, id, id, false⟩
  else if p.protocol = ipprotoUdp then
    if rest < sizeofUdphdr then
      return none
    let sport ← be16 p.payload
    let dport ← be16 (p.payload + 2)
    return some ⟨version, p.protocol, addrs.1, addrs.2, sport, dport, false⟩
  else if p.protocol = ipprotoTcp then
    if rest < sizeofTcphdr then
      return none
    let sport ← be16 p.payload
    let dport ← be16 (p.payload + 2)
    let flags ← u8 (p.payload + 13)
    return some ⟨version, p.protocol, addrs.1, addrs.2, sport, dport, flags.testBit 1⟩
  else
    return some ⟨version, p.protocol, addrs.1, addrs.2, 0, 0, false⟩

/-- "Limit number of sessions" -/
def overLimit (c : Config) (l : Loop) (f : Flow) : Bool :=
  decide (c.maxsessions ≤ l.sessions) &&
    (decide (isIcmp f.protocol) ||
      decide (f.protocol = ipprotoUdp) && !hasUdpSession c ⟨f.version, f.saddr, f.sport, f.daddr,
        f.dport, []⟩ l.table ||
      decide (f.protocol = ipprotoTcp) && f.syn)

/-! ## The handlers' headers -/

/-- `struct tcphdr` without the checksum and the urgent pointer. -/
structure TcpHeader where
  source : Nat
  dest : Nat
  seq : U32
  ackSeq : U32
  doff : Nat
  urg : Bool
  ack : Bool
  psh : Bool
  rst : Bool
  syn : Bool
  fin : Bool
  window : Nat
  deriving DecidableEq, Repr

def readTcphdr (p : Nat) : Read TcpHeader := do
  let source ← be16 p
  let dest ← be16 (p + 2)
  let seq ← be32 (p + 4)
  let ackSeq ← be32 (p + 8)
  let off ← u8 (p + 12)
  let flags ← u8 (p + 13)
  let window ← be16 (p + 14)
  pure
    { source, dest, seq, ackSeq, doff := off / 16
      urg := flags.testBit 5
      ack := flags.testBit 4
      psh := flags.testBit 3
      rst := flags.testBit 2
      syn := flags.testBit 1
      fin := flags.testBit 0
      window }

/-- A call of a handler, with the data it finds. -/
inductive Call where
  | icmp (type : UInt8) (payload icmplen : Nat)
  | udp (payload data datalen : Nat)
  | tcp (header : TcpHeader) (payload data datalen : Nat)
  deriving DecidableEq, Repr

def icmpCall (abi : Abi) (length payload : Nat) : Read Call := do
  let type ← look payload
  pure (.icmp type payload (sizeSub abi length payload))

def udpCall (abi : Abi) (length payload : Nat) : Call :=
  let data := payload + sizeofUdphdr
  .udp payload data (sizeSub abi length data)

def tcpCall (length payload : Nat) : Read Call := do
  let header ← readTcphdr payload
  let tcpoptlen := castU8 (((header.doff : Nat) - 5) * 4)
  let data := payload + sizeofTcphdr + tcpoptlen
  pure (.tcp header payload data (castU16 (length - data)))

/-- The part of `handle_ip` behind the headers of IP. -/
def dispatch (abi : Abi) (c : Config) (l : Loop) (length version : Nat) (p : Located) :
    Read (Verdict (Flow × Call)) := do
  match ← readFlow abi length version p with
  | none => return .drop
  | some f =>
    if overLimit c l f then
      return .drop
    if isIcmp p.protocol then
      let call ← icmpCall abi length p.payload
      return .pass (f, call)
    else if p.protocol = ipprotoUdp then
      return .pass (f, udpCall abi length p.payload)
    else if p.protocol = ipprotoTcp then
      let call ← tcpCall length p.payload
      return .pass (f, call)
    else
      return .drop

def handleIp (abi : Abi) (c : Config) (l : Loop) (fuel length : Nat) :
    Read (Verdict (Flow × Call)) := do
  let first ← u8 0
  let version := first / 16
  match ← locate version fuel length with
  | .loops => return .loops
  | .drop => return .drop
  | .pass p => dispatch abi c l length version p

/-- What the handlers make of a call; without one, nothing happens. -/
def receive (handlers : Flow → Call → Loop → Loop × List Out) (v : Verdict (Flow × Call))
    (l : Loop) : Loop × List Out :=
  match v with
  | .pass (f, call) => handlers f call l
  | .drop | .loops => (l, [])

end PdaNetClient.Ip
