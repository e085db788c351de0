import Mathlib.Data.BitVec
import Mathlib.Data.List.Infix

/-!
# A numbered stream

A list of symbols numbered from a first sequence number, modulo `2 ^ w`, and the
pieces of it that segments carry. While the stream is shorter than the number
space a sequence number names one position, so a piece that starts at the end of
what was taken extends it.
-/
namespace PdaNetClient.Numbered

set_option autoImplicit false

variable {α : Type} {w : Nat}

theorem ofNat_inj {a b : Nat} (ha : a < 2 ^ w) (hb : b < 2 ^ w) :
    BitVec.ofNat w a = BitVec.ofNat w b ↔ a = b := by
  rw [BitVec.toNat_eq, BitVec.toNat_ofNat, BitVec.toNat_ofNat, Nat.mod_eq_of_lt ha,
    Nat.mod_eq_of_lt hb]

theorem add_ofNat_inj {x : BitVec w} {a b : Nat} (ha : a < 2 ^ w) (hb : b < 2 ^ w) :
    x + BitVec.ofNat w a = x + BitVec.ofNat w b ↔ a = b := by
  rw [add_right_inj, ofNat_inj ha hb]

/-- Counting on does not come back to where it started. -/
theorem ne_counted (x : BitVec w) {k : Nat} (hk : 1 + k < 2 ^ w) :
    x ≠ x + 1 + BitVec.ofNat w k := by
  intro hx
  have hwrap : x + BitVec.ofNat w 0 = x + BitVec.ofNat w (1 + k) := by
    rw [BitVec.ofNat_add, ← BitVec.add_assoc]
    simpa using hx
  have hzero := (add_ofNat_inj (by omega) hk).mp hwrap
  omega

/-- `data` is what the stream `S`, numbered from `first`, holds from `seq` on. -/
def Carries (first : BitVec w) (S : List α) (seq : BitVec w) (data : List α) : Prop :=
  ∃ i, seq = first + BitVec.ofNat w i ∧ i + data.length ≤ S.length ∧ data <+: S.drop i

theorem Carries.of_initial {first : BitVec w} {S data : List α} (h : data <+: S) :
    Carries first S first data := by
  exact ⟨0, by simp, by simpa using h.length_le, by simpa using h⟩

theorem Carries.drop {first seq : BitVec w} {S data : List α} (h : Carries first S seq data)
    {k : Nat} (hk : k ≤ data.length) : Carries first S (seq + BitVec.ofNat w k) (data.drop k) := by
  obtain ⟨i, hseq, hlen, hdata⟩ := h
  refine ⟨i + k, ?_, ?_, ?_⟩
  · rw [hseq, BitVec.ofNat_add, BitVec.add_assoc]
  · rw [List.length_drop]
    omega
  · rw [← List.drop_drop]
    exact hdata.drop k

/-- The position of a piece is determined by its number. -/
theorem Carries.index {first : BitVec w} {S data : List α} {n : Nat} (hS : S.length < 2 ^ w)
    (hn : n < 2 ^ w) (h : Carries first S (first + BitVec.ofNat w n) data) :
    n + data.length ≤ S.length ∧ data <+: S.drop n := by
  obtain ⟨i, hseq, hlen, hdata⟩ := h
  have hi : n = i := (add_ofNat_inj hn (by omega)).mp hseq
  exact hi ▸ ⟨hlen, hdata⟩

theorem prefix_append {S a data : List α} (ha : a <+: S) (hd : data <+: S.drop a.length) :
    a ++ data <+: S := by
  obtain ⟨t, rfl⟩ := ha
  rw [List.drop_left] at hd
  exact (List.prefix_append_right_inj a).mpr hd

/-- A piece numbered by the end of a prefix extends it, whatever part of it is taken. -/
theorem Carries.extends {first : BitVec w} {S a data : List α} (hS : S.length < 2 ^ w)
    (ha : a <+: S) (h : Carries first S (first + BitVec.ofNat w a.length) data) (k : Nat) :
    a ++ data.take k <+: S := by
  have hlen := ha.length_le
  obtain ⟨-, hdata⟩ := h.index hS (by omega)
  exact prefix_append ha ((List.take_prefix k data).trans hdata)

/-- The pieces are numbered one behind the other, from `first` on. -/
def Contiguous (first : BitVec w) : List (BitVec w × List α) → Prop
  | [] => True
  | (seq, data) :: pieces => seq = first ∧ Contiguous (first + BitVec.ofNat w data.length) pieces

theorem Contiguous.append {first : BitVec w} {pieces : List (BitVec w × List α)}
    (h : Contiguous first pieces) (data : List α) :
    Contiguous first
      (pieces ++ [(first + BitVec.ofNat w (pieces.flatMap Prod.snd).length, data)]) := by
  induction pieces generalizing first with
  | nil => simp [Contiguous]
  | cons piece pieces ih =>
    obtain ⟨seq, d⟩ := piece
    refine ⟨h.1, ?_⟩
    simpa [BitVec.ofNat_add, BitVec.add_assoc] using ih h.2

end PdaNetClient.Numbered
