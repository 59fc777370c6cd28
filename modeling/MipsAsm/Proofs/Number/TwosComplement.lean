import MipsAsm.Proofs.Number.Word
import MipsAsm.Proofs.Result

/-!
# Two's complement

A word is read as what it leaves modulo the power of two of its width, balanced around zero
(`ofWord_of_isWord`). So the words of a width and the values of its signed range stand for each
other, and a value beyond both ranges, like a number that is no word, is refused
(`words_twosComplement`).
-/

namespace MipsAsm.Number

-- powers are the ones that numbers have, not those of a monoid
attribute [local instance(2000)] instPowNat

/-! ### The first bit -/

lemma Bits.length_ofNat (width n : Nat) : (ofNat width n).length = width := by
  induction width generalizing n with
  | zero => rfl
  | succ width ih => rw [ofNat, List.length_append, ih, List.length_singleton]

lemma Bits.head?_ofNat (width n : Nat) :
    (ofNat (width + 1) n).head? = some (n / 2 ^ width % 2 == 1) := by
  induction width generalizing n with
  | zero => simp [ofNat]
  | succ width ih =>
    have hpow : n / 2 / 2 ^ width = n / 2 ^ (width + 1) := by
      rw [Nat.div_div_eq_div_mul, Nat.pow_succ, Nat.mul_comm]
    rw [ofNat, List.head?_append, ih, Option.some_or, hpow]

/-- The bits of a number stand for what it leaves modulo a power of two, balanced around zero. -/
lemma Bits.signed_ofNat (width n : Nat) :
    (ofNat (width + 1) n).signed = (n : Int).bmod (2 ^ (width + 1)) := by
  have hsplit : n % 2 ^ (width + 1) = n % 2 ^ width + 2 ^ width * (n / 2 ^ width % 2) := by
    rw [Nat.pow_succ, Nat.mod_mul]
  have hlow : n % 2 ^ width < 2 ^ width := Nat.mod_lt n (Nat.two_pow_pos width)
  have hdouble : 2 ^ (width + 1) = 2 * 2 ^ width := by rw [Nat.pow_succ, Nat.mul_comm]
  rw [signed, head?_ofNat, length_ofNat, unsigned_ofNat, Int.bmod_def, ← natCast_two_pow,
    ← Int.natCast_emod]
  generalize n % 2 ^ (width + 1) = left at *
  generalize n % 2 ^ width = low at *
  generalize 2 ^ width = half at *
  rw [hdouble]
  -- the first bit: without it the number is in the lower half, and with it the power is taken off
  rcases Nat.mod_two_eq_zero_or_one (n / half) with hbit | hbit
  · rw [hbit] at hsplit ⊢
    rw [if_neg (by decide), if_pos (by omega)]
  · rw [hbit] at hsplit ⊢
    rw [if_pos (by decide), if_neg (by omega)]

/-! ### Values of words -/

/-- The number is a word of the width. -/
def IsWord (word bits : Int) : Prop := 1 ≤ bits ∧ 0 ≤ word ∧ word < 2 ^ bits.toNat

/-- The value is in the signed range of the width. -/
def FitsSigned (value bits : Int) : Prop :=
  1 ≤ bits ∧ -2 ^ (bits.toNat - 1) ≤ value ∧ value < 2 ^ (bits.toNat - 1)

instance (value bits : Int) : Decidable (Fits value bits) :=
  inferInstanceAs (Decidable (1 ≤ bits ∧ -2 ^ (bits.toNat - 1) ≤ value ∧ value < 2 ^ bits.toNat))

instance (word bits : Int) : Decidable (IsWord word bits) :=
  inferInstanceAs (Decidable (1 ≤ bits ∧ 0 ≤ word ∧ word < 2 ^ bits.toNat))

instance (value bits : Int) : Decidable (FitsSigned value bits) :=
  inferInstanceAs
    (Decidable (1 ≤ bits ∧ -2 ^ (bits.toNat - 1) ≤ value ∧ value < 2 ^ (bits.toNat - 1)))

section

variable {value word bits : Int}

/-- The whole range of a width is twice its signed half. -/
lemma two_pow_toNat (h : 1 ≤ bits) : (2 ^ bits.toNat : Int) = 2 * 2 ^ (bits.toNat - 1) := by
  obtain ⟨width, hwidth⟩ : ∃ width, bits.toNat = width + 1 := ⟨bits.toNat - 1, by omega⟩
  rw [hwidth, Nat.add_sub_cancel, ← natCast_two_pow, ← natCast_two_pow, Nat.pow_succ]
  omega

lemma FitsSigned.fits (h : FitsSigned value bits) : Fits value bits := by
  obtain ⟨hbits, hlow, hhigh⟩ := h
  have hpos := two_pow_pos (bits.toNat - 1)
  have hdouble := two_pow_toNat hbits
  exact ⟨hbits, hlow, by omega⟩

/-- The value of a word is what it leaves modulo a power of two, balanced around zero. -/
lemma ofWord_of_isWord (h : IsWord word bits) :
    ofWord word bits = .ok (word.bmod (2 ^ bits.toNat)) := by
  obtain ⟨hbits, hlow, hhigh⟩ := h
  obtain ⟨width, hwidth⟩ : ∃ width, bits.toNat = width + 1 := ⟨bits.toNat - 1, by omega⟩
  rw [ofWord, unsignedBits, if_pos ⟨hbits, hlow, hhigh⟩, Except.map, hwidth, Bits.signed_ofNat,
    Int.toNat_of_nonneg hlow]

lemma ofWord_of_not_isWord (h : ¬ IsWord word bits) :
    ofWord word bits = .error (.valueOutOfRange word bits) := by
  have hbits : unsignedBits word bits = .error (.valueOutOfRange word bits) := if_neg h
  rw [ofWord, hbits]
  rfl

/-- What a word leaves, balanced around zero, is the value in the signed range that is congruent to
the word. -/
lemma bmod_eq_iff_fitsSigned (hbits : 1 ≤ bits) :
    word.bmod (2 ^ bits.toNat) = value ↔
      FitsSigned value bits ∧ value % 2 ^ bits.toNat = word % 2 ^ bits.toNat := by
  have hdouble := two_pow_toNat hbits
  rw [Int.bmod_eq_iff (Nat.two_pow_pos _), natCast_two_pow, Int.dvd_iff_emod_eq_zero,
    ← Int.emod_eq_emod_iff_emod_sub_eq_zero, ← and_assoc]
  refine and_congr_left fun _ => ?_
  rw [FitsSigned]
  generalize (2 : Int) ^ bits.toNat = full at *
  generalize (2 : Int) ^ (bits.toNat - 1) = half at *
  omega

/-- A value in the signed range is what its word is read as. -/
lemma ofWord_toWord (h : FitsSigned value bits) :
    (toWord value bits >>= fun word => ofWord word bits) = .ok value := by
  have hpos := two_pow_pos bits.toNat
  have hlow := Int.emod_nonneg value (Int.ne_of_gt hpos)
  have hword : IsWord (value % 2 ^ bits.toNat) bits := ⟨h.1, hlow, Int.emod_lt_of_pos value hpos⟩
  rw [toWord_of_fits h.fits]
  show ofWord ((value % 2 ^ bits.toNat).toNat : Nat) bits = .ok value
  rw [Int.toNat_of_nonneg hlow, ofWord_of_isWord hword]
  congr 1
  rw [bmod_eq_iff_fitsSigned h.1, Int.emod_emod_of_dvd _ (Int.dvd_refl _)]
  exact ⟨h, rfl⟩

/-- A word is the word of what it is read as. -/
lemma toWord_ofWord (h : IsWord word bits) :
    (ofWord word bits >>= fun value => toWord value bits) = .ok word.toNat := by
  obtain ⟨hfits, hmod⟩ := (bmod_eq_iff_fitsSigned h.1).mp (Eq.refl (word.bmod (2 ^ bits.toNat)))
  rw [ofWord_of_isWord h]
  show toWord (word.bmod (2 ^ bits.toNat)) bits = .ok word.toNat
  rw [toWord_of_fits hfits.fits, hmod, Int.emod_eq_of_lt h.2.1 h.2.2]

/-! ### Results -/

/-- Exactly the values of both ranges have a word. -/
lemma toWord_eq_ok_iff {word : Nat} :
    toWord value bits = .ok word ↔ Fits value bits ∧ (word : Int) = value % 2 ^ bits.toNat := by
  by_cases hfits : Fits value bits
  · have hlow := Int.emod_nonneg value (Int.ne_of_gt (two_pow_pos bits.toNat))
    rw [toWord_of_fits hfits, Except.ok.injEq, and_iff_right hfits]
    omega
  · rw [toWord_of_not_fits hfits]
    exact iff_of_false nofun fun h => hfits h.1

/-- Exactly the words have a value. -/
lemma ofWord_eq_ok_iff :
    ofWord word bits = .ok value ↔ IsWord word bits ∧ word.bmod (2 ^ bits.toNat) = value := by
  by_cases hword : IsWord word bits
  · rw [ofWord_of_isWord hword, Except.ok.injEq, and_iff_right hword]
  · rw [ofWord_of_not_isWord hword]
    exact iff_of_false nofun fun h => hword h.1

lemma kind_of_toWord {f : Fault} (h : toWord value bits = .error f) :
    f.kind = .integerParsing := by
  by_cases hfits : Fits value bits
  · rw [toWord_of_fits hfits] at h
    cases h
  · rw [toWord_of_not_fits hfits] at h
    cases h
    rfl

lemma kind_of_ofWord {f : Fault} (h : ofWord word bits = .error f) : f.kind = .integerParsing := by
  by_cases hword : IsWord word bits
  · rw [ofWord_of_isWord hword] at h
    cases h
  · rw [ofWord_of_not_isWord hword] at h
    cases h
    rfl

end

/-- Words are two's complement at every width. Exactly the values of the signed and of the unsigned
range have a word, which is what they leave modulo a power of two. Exactly the words have a value,
the one in the signed range that is congruent to the word. Each way undoes the other, and whatever
is refused is a fault of the number. -/
theorem words_twosComplement (value bits : Int) :
    ((∃ word, toWord value bits = .ok word) ↔ Fits value bits) ∧
    (∀ word : Nat, toWord value bits = .ok word → (word : Int) = value % 2 ^ bits.toNat) ∧
    ((∃ v, ofWord value bits = .ok v) ↔ IsWord value bits) ∧
    (∀ v, ofWord value bits = .ok v →
      (FitsSigned v bits ∧ v % 2 ^ bits.toNat = value % 2 ^ bits.toNat) ∧
      ∀ v', FitsSigned v' bits ∧ v' % 2 ^ bits.toNat = value % 2 ^ bits.toNat → v' = v) ∧
    (FitsSigned value bits →
      (toWord value bits >>= fun word => ofWord word bits) = .ok value) ∧
    (IsWord value bits →
      (ofWord value bits >>= fun v => toWord v bits) = .ok value.toNat) ∧
    (∀ f, toWord value bits = .error f ∨ ofWord value bits = .error f →
      f.kind = .integerParsing) := by
  refine ⟨⟨?_, ?_⟩, ?_, ⟨?_, ?_⟩, ?_, ofWord_toWord, toWord_ofWord, ?_⟩
  · rintro ⟨word, h⟩
    exact (toWord_eq_ok_iff.mp h).1
  · exact fun hfits => ⟨_, toWord_of_fits hfits⟩
  · exact fun word h => (toWord_eq_ok_iff.mp h).2
  · rintro ⟨v, h⟩
    exact (ofWord_eq_ok_iff.mp h).1
  · exact fun hword => ⟨_, ofWord_of_isWord hword⟩
  · intro v h
    obtain ⟨hword, hbmod⟩ := ofWord_eq_ok_iff.mp h
    refine ⟨(bmod_eq_iff_fitsSigned hword.1).mp hbmod, fun v' hv' => ?_⟩
    rw [← hbmod, (bmod_eq_iff_fitsSigned hword.1).mpr hv']
  · rintro f (h | h)
    · exact kind_of_toWord h
    · exact kind_of_ofWord h

/-- The ends of both ranges of a byte, and the word that they share. -/
theorem words_twosComplement_byte :
    FitsSigned (-128) 8 ∧ (toWord (-128) 8 >>= fun word => ofWord word 8) = .ok (-128) ∧
    IsWord 128 8 ∧ (ofWord 128 8 >>= fun v => toWord v 8) = .ok 128 ∧
    Fits 255 8 ∧ (∃ word, toWord 255 8 = .ok word) ∧ ¬ ∃ word, toWord (-129) 8 = .ok word := by
  have hlow : FitsSigned (-128) 8 := by decide
  have hword : IsWord 128 8 := by decide
  have hhigh : Fits 255 8 := by decide
  have hbeyond : ¬ Fits (-129) 8 := by decide
  exact ⟨hlow, (words_twosComplement (-128) 8).2.2.2.2.1 hlow,
    hword, (words_twosComplement 128 8).2.2.2.2.2.1 hword,
    hhigh, (words_twosComplement 255 8).1.mpr hhigh,
    fun h => hbeyond ((words_twosComplement (-129) 8).1.mp h)⟩

end MipsAsm.Number
