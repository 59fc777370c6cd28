import MipsAsm.Number.Word
import Mathlib.Tactic.Common

/-!
# Values of words

The bits of a number are its value modulo a power of two (`Bits.unsigned_ofNat`), so that a word is
below that power. A value has a word exactly if it is in one of the two ranges of the width, and its
word is what is left of it modulo that power (`toWord_of_fits`, `toWord_of_not_fits`).
-/

namespace MipsAsm.Number

-- powers are the ones that numbers have, not those of a monoid
attribute [local instance(2000)] instPowNat

lemma Bits.unsigned_append (b : Bits) (bit : Bool) :
    unsigned (b ++ [bit]) = 2 * b.unsigned + bit.toNat := by
  simp [unsigned]

/-- The last bits of a number are what is left of it modulo a power of two. -/
lemma Bits.unsigned_ofNat (width n : Nat) : (ofNat width n).unsigned = n % 2 ^ width := by
  induction width generalizing n with
  | zero => simp [ofNat, unsigned, Nat.mod_one]
  | succ width ih =>
    have hbit : (n % 2 == 1).toNat = n % 2 := by
      rcases Nat.mod_two_eq_zero_or_one n with h | h <;> rw [h] <;> rfl
    calc (ofNat (width + 1) n).unsigned
      _ = 2 * (n / 2 % 2 ^ width) + n % 2 := by rw [ofNat, unsigned_append, ih, hbit]
      _ = n % 2 + 2 * (n / 2 % 2 ^ width) := Nat.add_comm _ _
      _ = n % (2 * 2 ^ width) := Nat.mod_mul.symm
      _ = n % 2 ^ (width + 1) := by rw [Nat.pow_succ, Nat.mul_comm]

/-! ### Values that have words -/

lemma natCast_two_pow (n : Nat) : ((2 ^ n : Nat) : Int) = 2 ^ n := Int.natCast_pow 2 n

lemma two_pow_pos (n : Nat) : (0 : Int) < 2 ^ n := by
  rw [← natCast_two_pow]
  exact Int.natCast_pos.mpr (Nat.two_pow_pos n)

/-- The value is in the signed or in the unsigned range of the width. -/
def Fits (value bits : Int) : Prop :=
  1 ≤ bits ∧ -2 ^ (bits.toNat - 1) ≤ value ∧ value < 2 ^ bits.toNat

/-- The word of a value that fits is what is left of it modulo a power of two. -/
lemma toWord_of_fits {value bits : Int} (h : Fits value bits) :
    toWord value bits = .ok (value % 2 ^ bits.toNat).toNat := by
  obtain ⟨hbits, hlow, hhigh⟩ := h
  rw [toWord, wordBits]
  by_cases hvalue : 0 ≤ value
  · rw [if_pos hvalue, unsignedBits, if_pos ⟨hbits, hvalue, hhigh⟩, Except.map,
      Bits.unsigned_ofNat]
    congr 1
    rw [← natCast_two_pow] at hhigh ⊢
    rw [Nat.mod_eq_of_lt (by omega), Int.emod_eq_of_lt hvalue hhigh]
  · rw [if_neg hvalue, if_pos ⟨hbits, hlow⟩, Except.map, Bits.unsigned_ofNat]
    congr 1
    have hhalf : 2 ^ (bits.toNat - 1) ≤ 2 ^ bits.toNat :=
      Nat.pow_le_pow_right (by decide) (Nat.sub_le _ _)
    -- a negative value is as far below the power as its word is above zero
    rw [← Int.add_emod_left, ← natCast_two_pow bits.toNat]
    rw [← natCast_two_pow] at hlow
    generalize 2 ^ (bits.toNat - 1) = half at *
    generalize 2 ^ bits.toNat = full at *
    rw [Nat.mod_eq_of_lt (by omega), Int.emod_eq_of_lt (by omega) (by omega)]

lemma toWord_of_not_fits {value bits : Int} (h : ¬ Fits value bits) :
    toWord value bits = .error (.valueOutOfRange value bits) := by
  have hhalf := two_pow_pos (bits.toNat - 1)
  have hfull := two_pow_pos bits.toNat
  rw [toWord, wordBits, unsignedBits]
  split_ifs with hvalue hunsigned hsigned
  · exact absurd ⟨hunsigned.1, by omega, hunsigned.2.2⟩ h
  · rfl
  · exact absurd ⟨hsigned.1, hsigned.2, by omega⟩ h
  · rfl

/-- A word is below the power of two of its width. -/
lemma toWord_lt {value bits : Int} {w : Nat} (h : toWord value bits = .ok w) :
    w < 2 ^ bits.toNat := by
  by_cases hfits : Fits value bits
  · rw [toWord_of_fits hfits] at h
    cases h
    have hlt := Int.emod_lt_of_pos value (two_pow_pos bits.toNat)
    have hpos := Nat.two_pow_pos bits.toNat
    rw [← natCast_two_pow] at hlt ⊢
    omega
  · rw [toWord_of_not_fits hfits] at h
    cases h

end MipsAsm.Number
