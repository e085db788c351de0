import PdaNetClient.OnesComplement
import PdaNetClient.Util

/-!
# `calc_checksum`

The sum of a buffer in one's complement, with 16-bit loads in the byte order of the
machine, which is little-endian for every ABI of the build.
-/
namespace PdaNetClient

open OnesComplement

set_option autoImplicit false

/-- The loop over the words, and the odd byte behind it. -/
def addWords : U32 → Bytes → U32
  | sum, [] => sum
  | sum, [a] => sum + BitVec.ofNat 32 a.toNat
  | sum, a :: b :: rest => addWords (sum + BitVec.ofNat 32 (a.toNat + 256 * b.toNat)) rest

/-- One turn of the fold. -/
theorem halves_toNat (sum : U32) :
    ((sum &&& 0xFFFF#32) + (sum >>> 16)).toNat = sum.toNat % 65536 + sum.toNat / 65536 := by
  have hlow : (sum &&& 0xFFFF#32).toNat = sum.toNat % 65536 := by
    rw [BitVec.toNat_and]
    exact Nat.and_two_pow_sub_one_eq_mod sum.toNat 16
  have hlt := sum.isLt
  rw [BitVec.toNat_add, BitVec.toNat_ushiftRight, Nat.shiftRight_eq_div_pow, hlow]
  omega

/-- `while (sum >> 16)` -/
def foldCarries (sum : U32) : U32 :=
  if sum >>> 16 = 0 then sum else foldCarries ((sum &&& 0xFFFF#32) + (sum >>> 16))
termination_by sum.toNat
decreasing_by
  rename_i h
  have hstep := halves_toNat sum
  bv_omega

def calcChecksum (start : BitVec 16) (buffer : Bytes) : BitVec 16 :=
  (foldCarries (addWords (start.setWidth 32) buffer)).setWidth 16

/-- The accumulator does not overflow. -/
theorem addWords_toNat (sum : U32) (buffer : Bytes) (h : sum.toNat + sumLe buffer < 2 ^ 32) :
    (addWords sum buffer).toNat = sum.toNat + sumLe buffer := by
  fun_induction addWords sum buffer with
  | case1 sum => rfl
  | case2 sum a =>
    have ha := a.toNat_lt
    simp only [sumLe] at h ⊢
    rw [BitVec.toNat_add, BitVec.toNat_ofNat]
    omega
  | case3 sum a b rest ih =>
    have ha := a.toNat_lt
    have hb := b.toNat_lt
    simp only [sumLe] at h ⊢
    have hsum : (sum + BitVec.ofNat 32 (a.toNat + 256 * b.toNat)).toNat =
        sum.toNat + (a.toNat + 256 * b.toNat) := by
      rw [BitVec.toNat_add, BitVec.toNat_ofNat]
      omega
    rw [hsum] at ih
    rw [ih (by omega)]
    omega

theorem foldCarries_toNat (sum : U32) : (foldCarries sum).toNat = carry sum.toNat := by
  fun_induction foldCarries sum with
  | case1 sum h =>
    rw [carry_small (by bv_omega)]
  | case2 sum h ih =>
    rw [ih, halves_toNat]
    conv => rhs; unfold carry
    rw [if_neg (by bv_omega)]

theorem calcChecksum_toNat (start : BitVec 16) (buffer : Bytes) (h : buffer.length ≤ 131072) :
    (calcChecksum start buffer).toNat = carry (start.toNat + sumLe buffer) := by
  have hstart := start.isLt
  have hsum := sumLe_le buffer
  have hwide : (start.setWidth 32).toNat = start.toNat := by simp; omega
  have hlt := carry_lt (start.toNat + sumLe buffer)
  unfold calcChecksum
  rw [BitVec.toNat_setWidth, foldCarries_toNat, addWords_toNat _ _ (by omega), hwide]
  omega

end PdaNetClient
