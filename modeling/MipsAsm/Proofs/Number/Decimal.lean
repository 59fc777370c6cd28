import MipsAsm.Number.Immediate
import Mathlib.Data.List.Basic

/-!
# Decimal numbers

The decimal digits of a number are read as the number (`readImmediate_toDigits`).
-/

namespace MipsAsm.Number

-- powers are the ones that numbers have, not those of a monoid
attribute [local instance(2000)] instPowNat

lemma isDigit_of_mem_toDigits {n : Nat} {c : Char} (h : c ∈ Nat.toDigits 10 n) : isDigit c := by
  have := Nat.isDigit_of_mem_toDigits (by decide) (by decide) h
  simpa [isDigit, Char.isDigit, Char.le_def] using this

lemma hexValue?_of_isDigit {c : Char} (h : isDigit c) :
    hexValue? c = some (c.toNat - '0'.toNat) := by
  have hrange : 0x30 ≤ c.toNat ∧ c.toNat ≤ 0x39 := by
    simpa [isDigit, Char.le_def, UInt32.le_iff_toNat_le] using h
  rw [hexValue?, if_pos hrange]
  rfl

/-- The value of digits is that of the digits one after the other. -/
lemma digitsValue_digitValues {ds : Text} (h : ∀ c ∈ ds, isDigit c) :
    digitsValue 10 (digitValues ds) = Nat.ofDigitChars 10 ds 0 := by
  rw [digitsValue, digitValues, List.foldl_map, Nat.ofDigitChars_eq_foldl]
  apply List.foldl_ext
  intro n c hc
  rw [hexValue?_of_isDigit (h c hc), Option.getD_some, Nat.mul_comm]

lemma digitsValue_toDigits (n : Nat) : digitsValue 10 (digitValues (Nat.toDigits 10 n)) = n := by
  rw [digitsValue_digitValues fun _ => isDigit_of_mem_toDigits, Nat.ofDigitChars_ten_toDigits]

/-- What is no digit is neither a sign in front of digits nor the mark of another base. -/
lemma cutSign_of_digits {ds : Text} (h : ∀ c ∈ ds, isDigit c) : cutSign ds = (false, ds) := by
  cases ds with
  | nil => rfl
  | cons c ds =>
    have hc := h c List.mem_cons_self
    rw [cutSign]
    · rintro t ⟨⟩
      cases hc
    · rintro t ⟨⟩
      cases hc

lemma hexDigits?_of_digits {ds : Text} (h : ∀ c ∈ ds, isDigit c) : hexDigits? ds = none := by
  rw [hexDigits?.eq_def]
  split
  · next x ds =>
    have hx := h x (by simp)
    rw [if_neg]
    rintro ⟨rfl | rfl, -⟩ <;> cases hx
  · rfl

lemma readImmediate_toDigits {n : Nat} (hn : n < 2 ^ (32 : Nat)) :
    readImmediate (Nat.toDigits 10 n) = .ok n := by
  have hdigits : ∀ c ∈ Nat.toDigits 10 n, isDigit c := fun c => isDigit_of_mem_toDigits
  have hlength : (Nat.toDigits 10 n).length ≤ 10 :=
    (Nat.length_toDigits_le_iff (by decide) (by decide)).mpr (by omega)
  have hshort : ¬ digitLimit < (Nat.toDigits 10 n).length := by
    rw [digitLimit]
    omega
  have hall : ¬ (Nat.toDigits 10 n = [] ∨ ¬ (Nat.toDigits 10 n).all isDigit) := by
    simpa [Nat.toDigits_ne_nil] using hdigits
  have hvalue : signed false (digitsValue 10 (digitValues (Nat.toDigits 10 n))) = n := by
    rw [digitsValue_toDigits]
    rfl
  rw [readImmediate, cutSign_of_digits hdigits]
  dsimp only
  rw [hexDigits?_of_digits hdigits]
  dsimp only
  rw [if_neg hall, if_neg hshort, hvalue, if_pos (by omega)]

end MipsAsm.Number
