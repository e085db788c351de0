import Mathlib.Data.BitVec
import Mathlib.Data.List.TakeWhile

/-!
# Target machine and `util.c`

The native library is built for four ABIs that differ in the width of `size_t`
and in the signedness of `char`; both are visible to the code. `uint32_t` is
`BitVec 32`, a byte buffer is a list of bytes, and a C string is the part of a
buffer before its first zero.
-/
namespace PdaNetClient

set_option autoImplicit false

abbrev U32 := BitVec 32
abbrev Bytes := List UInt8

/-- The ABIs of the Android build; jniLibs holds one directory for each. -/
inductive Abi where
  | armeabiV7a | arm64V8a | x86 | x86_64
  deriving DecidableEq, Repr

/-- Width of `size_t` and of `ssize_t`. -/
def Abi.sizeBits : Abi → Nat
  | .armeabiV7a | .x86 => 32
  | .arm64V8a | .x86_64 => 64

/-- Plain `char` is unsigned on the ARM targets and signed on the x86 ones. -/
def Abi.charSigned : Abi → Bool
  | .armeabiV7a | .arm64V8a => false
  | .x86 | .x86_64 => true

/-- The usual arithmetic conversions of `ssize_t > size_t`: the signed operand
is converted to `size_t`. -/
def Abi.gtSizeT (abi : Abi) (a : Int) (b : Nat) : Bool :=
  decide (b < (a % (2 ^ abi.sizeBits : Nat)).toNat)

/-- Minus one converts to `SIZE_MAX`, which no 16-bit length reaches. -/
theorem Abi.gtSizeT_neg_one (abi : Abi) (b : Nat) (hb : b < 2 ^ 16) :
    abi.gtSizeT (-1) b = true := by
  have hmax : 2 ^ 16 ≤ ((-1 : Int) % (2 ^ abi.sizeBits : Nat)).toNat := by cases abi <;> decide
  simp only [Abi.gtSizeT, decide_eq_true_eq]
  omega

theorem Abi.gtSizeT_ofNat (abi : Abi) (a b : Nat) (ha : a < 2 ^ 32) :
    abi.gtSizeT a b = decide (b < a) := by
  have hmod : ((a : Int) % (2 ^ abi.sizeBits : Nat)).toNat = a := by
    cases abi <;> simp only [Abi.sizeBits] <;> omega
  simp only [Abi.gtSizeT, hmod]

def ascii (s : String) : Bytes := s.toList.map fun c => UInt8.ofNat c.toNat

/-- `strlen`, `strcpy` and `%s` stop at the first zero byte. -/
def cString (b : Bytes) : Bytes := b.takeWhile (· ≠ 0)

/-- `%d` and `%u` of a non-negative number. -/
def decimal (n : Nat) : Bytes := (Nat.toDigits 10 n).map fun c => UInt8.ofNat c.toNat

/-- `compare_u32`, with `int` subtraction taken as two's complement wrap. -/
def compareU32 (s1 s2 : U32) : Int :=
  if s1 = s2 then 0
  else if (s1.toInt < s2.toInt ∧ (s2 - s1).toInt < 0x7FFFFFFF) ∨
      (s1.toInt > s2.toInt ∧ (s1 - s2).toInt > 0x7FFFFFFF) then -1
  else 1

@[simp] theorem compareU32_self (a : U32) : compareU32 a a = 0 := by simp [compareU32]

theorem compareU32_eq_zero {a b : U32} : compareU32 a b = 0 ↔ a = b := by
  unfold compareU32
  split
  · simp [*]
  · split <;> simp [*]

theorem eq_of_compareU32 {a b : U32} (hlt : ¬ compareU32 a b < 0)
    (hgt : ¬ compareU32 a b > 0) : a = b :=
  compareU32_eq_zero.mp (Int.le_antisymm (Int.not_lt.mp hgt) (Int.not_lt.mp hlt))

/-- No `int` exceeds `0x7FFFFFFF`, so the second disjunct never holds and the
comparison is the signed one, except at distance exactly `0x7FFFFFFF`. -/
theorem compareU32_neg {a b : U32} :
    compareU32 a b < 0 ↔ a.toInt < b.toInt ∧ b.toInt - a.toInt ≠ 0x7FFFFFFF := by
  have hab : (a - b).toInt ≤ 0x7FFFFFFF := by
    have := (a - b).isLt; rw [BitVec.toInt_eq_toNat_cond]; omega
  have hba : (b - a).toInt = (b.toInt - a.toInt).bmod (2 ^ 32) := BitVec.toInt_sub
  have ha := BitVec.toInt_lt (x := a)
  have ha' := BitVec.le_toInt a
  have hb := BitVec.toInt_lt (x := b)
  have hb' := BitVec.le_toInt b
  unfold compareU32
  by_cases he : a = b
  · simp [he]
  · rw [if_neg he, hba]
    split <;> simp only [Int.bmod] at * <;> omega

theorem compareU32_pos {a b : U32} : 0 < compareU32 a b ↔ a ≠ b ∧ ¬ compareU32 a b < 0 := by
  unfold compareU32
  split
  · simp [*]
  · split <;> simp [*]

end PdaNetClient
