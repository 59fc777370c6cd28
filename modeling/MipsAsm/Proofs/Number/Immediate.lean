import Mathlib.Data.Nat.Digits.Defs
import MipsAsm.Proofs.Number.Decimal

/-!
# Immediates

What immediates look like and what they denote (`Denotes`): a sign that may be missing, and decimal
digits or, behind a mark, at most eight hexadecimal ones. Reading an immediate accepts these texts
and no others (`readImmediate_grammar`), so that numbers are read as they are printed.
-/

namespace MipsAsm.Number

-- powers are the ones that numbers have, not those of a monoid
attribute [local instance(2000)] instPowNat

/-! ### Digits -/

lemma toLower_of_not_ascii {c : Char} (h : 128 ≤ c.toNat) : c.toLower = c := by
  unfold Char.toLower
  rw [dif_neg]
  rintro ⟨-, hle⟩
  have hle' : c.toNat ≤ 'Z'.toNat := UInt32.le_iff_toNat_le.mp hle
  have hz : 'Z'.toNat = 90 := rfl
  omega

/-- A character has the value of the digit that it is in lower case. -/
lemma hexValue?_eq_some_iff {c : Char} {d : Nat} :
    hexValue? c = some d ↔ d < 16 ∧ c.toLower = Nat.digitChar d := by
  have hascii : ∀ n < 128, ∀ d < 16,
      hexValue? (Char.ofNat n) = some d ↔ (Char.ofNat n).toLower = Nat.digitChar d := by
    decide +kernel
  have hchar : ∀ d < 16, (Nat.digitChar d).toNat < 128 := by decide
  have hvalue : hexValue? c = some d → c.toNat < 128 ∧ d < 16 := by
    intro h
    rw [hexValue?] at h
    split_ifs at h <;> cases h <;> omega
  by_cases hc : c.toNat < 128
  · -- among the characters of ASCII there are few enough to look at each
    by_cases hd : d < 16
    · have hsame := hascii c.toNat hc d hd
      rwa [Char.ofNat_toNat, ← and_iff_right (b := c.toLower = Nat.digitChar d) hd] at hsame
    · exact iff_of_false (fun h => hd (hvalue h).2) fun h => hd h.1
  · refine iff_of_false (fun h => hc (hvalue h).1) fun h => ?_
    rw [toLower_of_not_ascii (by omega)] at h
    exact hc (h.2 ▸ hchar d h.1)

lemma isHexDigit_iff {c : Char} : isHexDigit c ↔ ∃ d < 16, hexValue? c = some d := by
  rw [isHexDigit, Option.isSome_iff_exists]
  constructor
  · rintro ⟨d, hd⟩
    exact ⟨d, (hexValue?_eq_some_iff.mp hd).1, hd⟩
  · rintro ⟨d, -, hd⟩
    exact ⟨d, hd⟩

lemma isDigit_iff {c : Char} : isDigit c ↔ ∃ d < 10, hexValue? c = some d := by
  have hrange : isDigit c ↔ 0x30 ≤ c.toNat ∧ c.toNat ≤ 0x39 := by
    simp [isDigit, Char.le_def, UInt32.le_iff_toNat_le]
  rw [hrange, hexValue?]
  split_ifs with hdigit hcapital hsmall
  · exact iff_of_true hdigit ⟨_, by omega, rfl⟩
  · refine iff_of_false hdigit ?_
    rintro ⟨d, hd, h⟩
    cases h
    omega
  · refine iff_of_false hdigit ?_
    rintro ⟨d, hd, h⟩
    cases h
    omega
  · exact iff_of_false hdigit (by simp)

/-- The text writes the digits of a base, the most significant first, letters in either case. -/
def Writes (base : Nat) (digits : List Nat) (t : Text) : Prop :=
  (∀ d ∈ digits, d < base) ∧ t.map Char.toLower = digits.map Nat.digitChar

section

variable {base : Nat} {ds : List Nat} {t : Text}

/-- The digits that are written are the values of the characters. -/
lemma writes_iff (hbase : base ≤ 16) :
    Writes base ds t ↔ (∀ c ∈ t, ∃ d < base, hexValue? c = some d) ∧ digitValues t = ds := by
  induction t generalizing ds with
  | nil => cases ds <;> simp [Writes, digitValues]
  | cons c t ih =>
    cases ds with
    | nil => simp [Writes, digitValues]
    | cons d ds =>
      have hhead : (d < base ∧ c.toLower = Nat.digitChar d) ↔
          (∃ d < base, hexValue? c = some d) ∧ (hexValue? c).getD 0 = d := by
        constructor
        · rintro ⟨hd, hc⟩
          have hvalue := hexValue?_eq_some_iff.mpr ⟨Nat.lt_of_lt_of_le hd hbase, hc⟩
          exact ⟨⟨d, hd, hvalue⟩, by rw [hvalue]; rfl⟩
        · rintro ⟨⟨d', hd', hvalue⟩, rfl⟩
          rw [hvalue]
          exact ⟨hd', (hexValue?_eq_some_iff.mp hvalue).2⟩
      have hcons : Writes base (d :: ds) (c :: t) ↔
          (d < base ∧ c.toLower = Nat.digitChar d) ∧ Writes base ds t := by
        simp only [Writes, List.forall_mem_cons, List.map_cons, List.cons.injEq]
        tauto
      have hvalues : digitValues (c :: t) = (hexValue? c).getD 0 :: digitValues t := rfl
      rw [hcons, hhead, ih, List.forall_mem_cons, hvalues, List.cons.injEq]
      tauto

lemma writes_hexadecimal (h : ∀ c ∈ t, isHexDigit c) : Writes 16 (digitValues t) t :=
  (writes_iff (Nat.le_refl 16)).mpr ⟨fun c hc => isHexDigit_iff.mp (h c hc), rfl⟩

lemma writes_decimal (h : ∀ c ∈ t, isDigit c) : Writes 10 (digitValues t) t :=
  (writes_iff (by decide)).mpr ⟨fun c hc => isDigit_iff.mp (h c hc), rfl⟩

namespace Writes

lemma isHexDigit (h : Writes 16 ds t) : ∀ c ∈ t, isHexDigit c :=
  fun c hc => isHexDigit_iff.mpr (((writes_iff (Nat.le_refl 16)).mp h).1 c hc)

lemma isDigit (h : Writes 10 ds t) : ∀ c ∈ t, isDigit c :=
  fun c hc => isDigit_iff.mpr (((writes_iff (by decide)).mp h).1 c hc)

lemma length_eq (h : Writes base ds t) : t.length = ds.length := by
  have := congrArg List.length h.2
  rwa [List.length_map, List.length_map] at this

lemma eq_nil_iff (h : Writes base ds t) : t = [] ↔ ds = [] := by
  rw [← List.length_eq_zero_iff, h.length_eq, List.length_eq_zero_iff]

end Writes

/-- Digits are read from the most significant one on. -/
lemma digitsValue_eq_ofDigits (base : Nat) (ds : List Nat) :
    digitsValue base ds = Nat.ofDigits base ds.reverse := by
  rw [digitsValue, Nat.ofDigits_eq_foldr, List.foldr_reverse]
  simp only [Nat.cast_id, Nat.mul_comm, Nat.add_comm]

lemma Writes.digitsValue (hbase : base ≤ 16) (h : Writes base ds t) (b : Nat) :
    digitsValue b (digitValues t) = Nat.ofDigits b ds.reverse := by
  rw [((writes_iff hbase).mp h).2, digitsValue_eq_ofDigits]

/-- A number is printed in digits that denote it. -/
lemma exists_digits (hbase : 1 < base) (n : Nat) :
    ∃ ds, ds ≠ [] ∧ (∀ d ∈ ds, d < base) ∧ Nat.toDigits base n = ds.map Nat.digitChar ∧
      Nat.ofDigits base ds.reverse = n := by
  induction n using Nat.strong_induction_on with
  | _ n ih =>
    by_cases hn : n < base
    · -- a single digit
      exact ⟨[n], by simp, by simpa using hn, Nat.toDigits_of_lt_base hn, by simp⟩
    · have hpos : 0 < base := Nat.zero_lt_of_lt hbase
      have hsmaller : n / base < n := Nat.div_lt_self (by omega) hbase
      obtain ⟨ds, -, hds, htext, hvalue⟩ := ih (n / base) hsmaller
      refine ⟨ds ++ [n % base], by simp, ?_, ?_, ?_⟩
      · rw [List.forall_mem_append]
        exact ⟨hds, by simpa using Nat.mod_lt n hpos⟩
      · rw [Nat.toDigits_of_base_le hbase (by omega), htext, List.map_append]
        rfl
      · rw [List.reverse_append, List.reverse_singleton, List.singleton_append, Nat.ofDigits_cons,
          hvalue]
        exact Nat.mod_add_div n base

end

/-! ### Grammar -/

/-- A sign in front of a number, if there is one. -/
inductive Sign where
  | none
  | plus
  | minus
deriving DecidableEq, Repr

namespace Sign

/-- The sign as it is written. -/
def text : Sign → Text
  | none  => []
  | plus  => ['+']
  | minus => ['-']

/-- The number with the sign. -/
def value (n : Nat) : Sign → Int
  | minus => -n
  | _     => n

end Sign

/-- The texts of immediates, and what they denote. -/
inductive Denotes : Text → Int → Prop where
  /-- One to eight hexadecimal digits behind `0x`. -/
  | hexadecimal (s : Sign) {mark : Char} {ds : List Nat} {t : Text}
      (hmark : mark = 'x' ∨ mark = 'X') (hne : ds ≠ []) (hcount : ds.length ≤ 8)
      (hwrites : Writes 16 ds t) :
      Denotes (s.text ++ '0' :: mark :: t) (s.value (Nat.ofDigits 16 ds.reverse))
  /-- Decimal digits, of a value that fits in a word with or without sign. -/
  | decimal (s : Sign) {ds : List Nat} {t : Text} (hne : ds ≠ []) (hwrites : Writes 10 ds t)
      (hlow : -2 ^ (31 : Nat) ≤ s.value (Nat.ofDigits 10 ds.reverse))
      (hhigh : s.value (Nat.ofDigits 10 ds.reverse) < 2 ^ (32 : Nat)) :
      Denotes (s.text ++ t) (s.value (Nat.ofDigits 10 ds.reverse))

/-! ### Reading -/

lemma exists_cutSign (t : Text) :
    ∃ (s : Sign) (u : Text), t = s.text ++ u ∧ cutSign t = (decide (s = .minus), u) := by
  unfold cutSign
  split
  · exact ⟨.minus, _, rfl, rfl⟩
  · exact ⟨.plus, _, rfl, rfl⟩
  · exact ⟨.none, _, rfl, rfl⟩

/-- A sign is cut off in front of a digit. -/
lemma cutSign_append (s : Sign) {c : Char} (hc : isDigit c) (t : Text) :
    cutSign (s.text ++ c :: t) = (decide (s = .minus), c :: t) := by
  cases s with
  | none =>
    refine cutSign.eq_3 _ ?_ ?_
    · rintro u ⟨⟩
      cases hc
    · rintro u ⟨⟩
      cases hc
  | plus => rfl
  | minus => rfl

lemma signed_eq_value (s : Sign) (n : Nat) : signed (decide (s = .minus)) n = s.value n := by
  cases s <;> rfl

lemma hexDigits?_eq_some_iff {t ds : Text} :
    hexDigits? t = some ds ↔
      ∃ mark, (mark = 'x' ∨ mark = 'X') ∧ ds ≠ [] ∧ (∀ c ∈ ds, isHexDigit c) ∧
        t = '0' :: mark :: ds := by
  constructor
  · intro h
    unfold hexDigits? at h
    split at h
    · next mark ds' =>
      split at h
      · next hds =>
        cases h
        rw [List.all_eq_true] at hds
        exact ⟨mark, hds.1, hds.2.1, hds.2.2, rfl⟩
      · cases h
    · cases h
  · rintro ⟨mark, hmark, hne, hds, rfl⟩
    rw [hexDigits?, if_pos ⟨hmark, hne, List.all_eq_true.mpr hds⟩]

section

variable {t u : Text} {s : Sign} (hcut : cutSign t = (decide (s = .minus), u))
include hcut

/-- Behind its sign, an immediate may be hexadecimal. -/
lemma readImmediate_of_hexDigits {ds : Text} (hds : hexDigits? u = some ds) :
    readImmediate t =
      if maxHexDigits < ds.length then .error (.fault (.tooManyHexDigits t))
      else .ok (s.value (digitsValue 16 (digitValues ds))) := by
  rw [readImmediate, hcut]
  simp only [hds, signed_eq_value]

/-- Behind its sign, an immediate is decimal if it is not hexadecimal. -/
lemma readImmediate_of_none (hds : hexDigits? u = none) :
    readImmediate t =
      if u = [] ∨ ¬ u.all isDigit then .error (.fault (.notAnImmediate t))
      else if digitLimit < u.length then .error (.tooManyDigits u.length)
      else if -2 ^ (31 : Nat) ≤ s.value (digitsValue 10 (digitValues u)) ∧
          s.value (digitsValue 10 (digitValues u)) < 2 ^ (32 : Nat) then
        .ok (s.value (digitsValue 10 (digitValues u)))
      else .error (.fault (.immediateOutOfRange t)) := by
  rw [readImmediate, hcut]
  simp only [hds, signed_eq_value]

end

variable {t : Text} {v : Int}

/-- What denotes a number is read as that number. -/
lemma Denotes.readImmediate_eq (h : Denotes t v) (hlimit : t.countP isDigit ≤ 4300) :
    readImmediate t = .ok v := by
  cases h with
  | hexadecimal s hmark hne hcount hwrites =>
    have hdigits := hexDigits?_eq_some_iff.mpr
      ⟨_, hmark, mt hwrites.eq_nil_iff.mp hne, hwrites.isHexDigit, rfl⟩
    -- a hexadecimal number is refused for its length only, a decimal one for its size
    have hshort : ¬ maxHexDigits < _ := Nat.not_lt.mpr (hwrites.length_eq.trans_le hcount)
    rw [readImmediate_of_hexDigits (cutSign_append s (by decide) _) hdigits, if_neg hshort,
      hwrites.digitsValue (Nat.le_refl 16)]
  | @decimal s ds t hne hwrites hlow hhigh =>
    have hdigits := hwrites.isDigit
    have hall : t.all isDigit := List.all_eq_true.mpr hdigits
    have hnil : t ≠ [] := mt hwrites.eq_nil_iff.mp hne
    have hshort : ¬ digitLimit < t.length := by
      rw [List.countP_append, List.countP_eq_length.mpr hdigits] at hlimit
      rw [digitLimit]
      omega
    obtain ⟨c, u, rfl⟩ := List.exists_cons_of_ne_nil hnil
    rw [readImmediate_of_none (cutSign_append s (hdigits c List.mem_cons_self) u)
      (hexDigits?_of_digits hdigits), if_neg (not_or.mpr ⟨hnil, not_not.mpr hall⟩), if_neg hshort,
      hwrites.digitsValue (by decide), if_pos ⟨hlow, hhigh⟩]

/-- What denotes no number is refused for that. -/
lemma denotes_or_refused (hlimit : t.countP isDigit ≤ 4300) :
    (∃ v, Denotes t v) ∨
      ∃ f : Fault, readImmediate t = .error (.fault f) ∧ f.kind = .integerParsing := by
  obtain ⟨s, u, rfl, hcut⟩ := exists_cutSign t
  cases hhex : hexDigits? u with
  | some ds =>
    obtain ⟨mark, hmark, hne, hds, rfl⟩ := hexDigits?_eq_some_iff.mp hhex
    have hwrites := writes_hexadecimal hds
    rw [readImmediate_of_hexDigits hcut hhex]
    -- too many digits, and else a number
    split
    · exact .inr ⟨_, rfl, rfl⟩
    · next hcount =>
      rw [hwrites.length_eq, Nat.not_lt] at hcount
      exact .inl ⟨_, .hexadecimal s hmark (mt hwrites.eq_nil_iff.mpr hne) hcount hwrites⟩
  | none =>
    rw [readImmediate_of_none hcut hhex]
    split
    · exact .inr ⟨_, rfl, rfl⟩
    · next hdecimal =>
      rw [not_or, not_not, List.all_eq_true] at hdecimal
      have hwrites := writes_decimal hdecimal.2
      have hshort : ¬ digitLimit < u.length := by
        rw [List.countP_append, List.countP_eq_length.mpr hdecimal.2] at hlimit
        rw [digitLimit]
        omega
      rw [if_neg hshort, hwrites.digitsValue (by decide)]
      -- all digits: a number, if it is in range
      split
      · next hrange =>
        exact .inl ⟨_, .decimal s (mt hwrites.eq_nil_iff.mpr hdecimal.1) hwrites hrange.1 hrange.2⟩
      · exact .inr ⟨_, rfl, rfl⟩

lemma readImmediate_eq_ok_iff (hlimit : t.countP isDigit ≤ 4300) :
    readImmediate t = .ok v ↔ Denotes t v := by
  refine ⟨fun h => ?_, fun h => h.readImmediate_eq hlimit⟩
  rcases denotes_or_refused hlimit with ⟨v', hv'⟩ | ⟨f, hf, -⟩
  · rw [hv'.readImmediate_eq hlimit] at h
    cases h
    exact hv'
  · cases hf.symm.trans h

/-! ### Printed numbers -/

lemma writes_digitChars {base : Nat} {ds : List Nat} (hbase : base ≤ 16)
    (hds : ∀ d ∈ ds, d < base) : Writes base ds (ds.map Nat.digitChar) := by
  have hlower : ∀ d < 16, (Nat.digitChar d).toLower = Nat.digitChar d := by decide
  refine ⟨hds, ?_⟩
  rw [List.map_map]
  exact List.map_congr_left fun d hd => hlower d (Nat.lt_of_lt_of_le (hds d hd) hbase)

lemma toList_toString (v : Int) :
    ∃ s : Sign,
      (toString v).toList = s.text ++ Nat.toDigits 10 v.natAbs ∧ s.value v.natAbs = v := by
  rw [Int.toString_eq_repr]
  cases v with
  | ofNat n =>
    refine ⟨.none, ?_, rfl⟩
    show n.repr.toList = Nat.toDigits 10 n
    rw [Nat.repr_eq_ofList_toDigits, String.toList_ofList]
  | negSucc n =>
    refine ⟨.minus, ?_, rfl⟩
    show ("-" ++ (n + 1).repr).toList = '-' :: Nat.toDigits 10 (n + 1)
    rw [String.toList_append, Nat.repr_eq_ofList_toDigits]
    exact congrArg ('-' :: ·) String.toList_ofList

/-- A number is denoted by what is printed for it. -/
lemma denotes_toString (hlow : -2 ^ (31 : Nat) ≤ v) (hhigh : v < 2 ^ (32 : Nat)) :
    Denotes (toString v).toList v := by
  obtain ⟨s, htext, hvalue⟩ := toList_toString v
  obtain ⟨ds, hne, hds, hdigits, hnumber⟩ := exists_digits (by decide : 1 < 10) v.natAbs
  rw [← hnumber] at hvalue
  subst hvalue
  rw [htext, hdigits]
  exact .decimal s hne (writes_digitChars (by decide) hds) hlow hhigh

/-- A word is denoted by its hexadecimal digits, with zeros in front of them or not. -/
lemma denotes_zeros {n zeros : Nat} {mark : Char} (hn : n < 2 ^ (32 : Nat))
    (hzeros : zeros ≤ 8 - (Nat.toDigits 16 n).length) (hmark : mark = 'x' ∨ mark = 'X')
    (ht : t.map Char.toLower = List.replicate zeros '0' ++ Nat.toDigits 16 n) :
    Denotes ('0' :: mark :: t) n := by
  obtain ⟨ds, hne, hds, hdigits, hnumber⟩ := exists_digits (by decide : 1 < 16) n
  have hlength : (Nat.toDigits 16 n).length ≤ 8 :=
    (Nat.length_toDigits_le_iff (by decide) (by decide)).mpr (by omega)
  have hwrites : Writes 16 (List.replicate zeros 0 ++ ds) t := by
    refine ⟨?_, ?_⟩
    · rw [List.forall_mem_append]
      refine ⟨fun d hd => ?_, hds⟩
      rw [List.eq_of_mem_replicate hd]
      decide
    · rw [ht, hdigits, List.map_append, List.map_replicate]
      rfl
  have hvalue : Nat.ofDigits 16 (List.replicate zeros 0 ++ ds).reverse = n := by
    rw [List.reverse_append, List.reverse_replicate, Nat.ofDigits_append_replicate_zero, hnumber]
  rw [hdigits, List.length_map] at hlength hzeros
  have hcount : (List.replicate zeros 0 ++ ds).length ≤ 8 := by
    rw [List.length_append, List.length_replicate]
    omega
  have := Denotes.hexadecimal .none hmark (by simp [hne]) hcount hwrites
  rwa [hvalue] at this

lemma readImmediate_toString (hlow : -2 ^ (31 : Nat) ≤ v) (hhigh : v < 2 ^ (32 : Nat)) :
    readImmediate (toString v).toList = .ok v := by
  have hlength : (Nat.toDigits 10 v.natAbs).length ≤ 10 :=
    (Nat.length_toDigits_le_iff (by decide) (by decide)).mpr (by omega)
  have hcount : (toString v).toList.countP isDigit ≤ 11 := by
    obtain ⟨s, htext, -⟩ := toList_toString v
    have hsign : s.text.length ≤ 1 := by cases s <;> decide
    refine List.countP_le_length.trans ?_
    rw [htext, List.length_append]
    omega
  exact (denotes_toString hlow hhigh).readImmediate_eq (hcount.trans (by decide))

lemma readImmediate_zeros {n zeros : Nat} {mark : Char} (hn : n < 2 ^ (32 : Nat))
    (hzeros : zeros ≤ 8 - (Nat.toDigits 16 n).length) (hmark : mark = 'x' ∨ mark = 'X')
    (ht : t.map Char.toLower = List.replicate zeros '0' ++ Nat.toDigits 16 n) :
    readImmediate ('0' :: mark :: t) = .ok n := by
  have hlength : (Nat.toDigits 16 n).length ≤ 8 :=
    (Nat.length_toDigits_le_iff (by decide) (by decide)).mpr (by omega)
  have hcount : ('0' :: mark :: t).countP isDigit ≤ 10 := by
    have := congrArg List.length ht
    rw [List.length_map, List.length_append, List.length_replicate] at this
    refine List.countP_le_length.trans ?_
    rw [List.length_cons, List.length_cons]
    omega
  exact (denotes_zeros hn hzeros hmark ht).readImmediate_eq (hcount.trans (by decide))

/-- Of the texts with at most so many digits as a decimal number may have, exactly those that denote
a number are read, each as that number, and the others are refused for the number. In particular a
number in range is read as it is printed, in decimal and, if it is not negative, in hexadecimal
digits, with zeros in front of them or not. -/
theorem readImmediate_grammar :
    (∀ t : Text, t.countP isDigit ≤ 4300 →
      (∀ v, readImmediate t = .ok v ↔ Denotes t v) ∧
      ((∀ v, ¬ Denotes t v) →
        ∃ f : Fault, readImmediate t = .error (.fault f) ∧ f.kind = .integerParsing)) ∧
    (∀ v : Int, -2 ^ (31 : Nat) ≤ v → v < 2 ^ (32 : Nat) →
      readImmediate (toString v).toList = .ok v) ∧
    ∀ (n zeros : Nat) (mark : Char) (t : Text), n < 2 ^ (32 : Nat) →
      zeros ≤ 8 - (Nat.toDigits 16 n).length → mark = 'x' ∨ mark = 'X' →
      t.map Char.toLower = List.replicate zeros '0' ++ Nat.toDigits 16 n →
      readImmediate ('0' :: mark :: t) = .ok n := by
  refine ⟨fun t hlimit => ⟨fun v => readImmediate_eq_ok_iff hlimit, fun hnone => ?_⟩, ?_, ?_⟩
  · rcases denotes_or_refused hlimit with ⟨v, hv⟩ | hrefused
    · exact absurd hv (hnone v)
    · exact hrefused
  · exact fun v => readImmediate_toString
  · exact fun n zeros mark t => readImmediate_zeros

/-- The least number and the greatest word as they are printed, a negative number behind a mark, and
a number without digits. -/
theorem readImmediate_grammar_ends :
    readImmediate "-2147483648".toList = .ok (-2147483648) ∧
    readImmediate "0X0000fFfF".toList = .ok 65535 ∧
    Denotes "-0xFFFFFFFF".toList (-4294967295) ∧
    "-0xFFFFFFFF".toList.countP isDigit ≤ 4300 := by
  have hread : readImmediate "-0xFFFFFFFF".toList = .ok (-4294967295) := by decide +kernel
  have hlimit : "-0xFFFFFFFF".toList.countP isDigit ≤ 4300 := by decide
  refine ⟨?_, ?_, ?_, hlimit⟩
  · have hprinted : (toString (-2147483648 : Int)).toList = "-2147483648".toList := by
      decide +kernel
    rw [← hprinted]
    exact readImmediate_grammar.2.1 (-2147483648) (by decide) (by decide)
  · exact readImmediate_grammar.2.2 65535 4 'X' "0000fFfF".toList (by decide) (by decide)
      (by decide) (by decide)
  · exact ((readImmediate_grammar.1 _ hlimit).1 _).mp hread

end MipsAsm.Number
