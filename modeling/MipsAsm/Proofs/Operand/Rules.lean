import MipsAsm.Operand.Lexer
import MipsAsm.Proofs.Result
import MipsAsm.Proofs.Scan.Context
import Mathlib.Data.List.TakeWhile

/-!
# What lexical rules take

A rule never takes more than there is, and what it takes has neither quotes nor comment signs in it,
unless it is a rule for literals. A text is lexed one rule after the other: `Lexed` says so without
regard to how the lexer works (`lexFrom_eq_ok_iff`).
-/

namespace MipsAsm

open Scan

variable {offset : Nat} {t : Text} {ls : List Lexeme}

/-! ### What rules take -/

/-- A text begins with a number of plain characters. -/
structure PlainPrefix (n : Nat) (t : Text) : Prop where
  le_length : n ≤ t.length
  plain     : ∀ c ∈ t.take n, IsPlain c

lemma plainPrefix_zero (t : Text) : PlainPrefix 0 t :=
  ⟨Nat.zero_le _, by simp⟩

lemma PlainPrefix.add {m n : Nat} (hm : PlainPrefix m t) (hn : PlainPrefix n (t.drop m)) :
    PlainPrefix (m + n) t := by
  constructor
  · have := hm.le_length
    have := hn.le_length
    rw [List.length_drop] at this
    omega
  · rw [List.take_add, List.forall_mem_append]
    exact ⟨hm.plain, hn.plain⟩

lemma PlainPrefix.cons {c : Char} {n : Nat} (hc : IsPlain c) (h : PlainPrefix n t) :
    PlainPrefix (n + 1) (c :: t) := by
  refine ⟨Nat.succ_le_succ h.le_length, ?_⟩
  rw [List.take_succ_cons, List.forall_mem_cons]
  exact ⟨hc, h.plain⟩

lemma plainPrefix_runLength {p : Char → Bool} (hp : ∀ c, p c = true → IsPlain c) (t : Text) :
    PlainPrefix (runLength p t) t := by
  refine ⟨(List.takeWhile_prefix p).length_le, fun c hc => ?_⟩
  rw [runLength, ← List.prefix_iff_eq_take.mp (List.takeWhile_prefix p)] at hc
  exact hp c (List.mem_takeWhile_imp hc)

lemma isPlain_of_isDigit (c : Char) : isDigit c = true → IsPlain c :=
  isPlain_of_class (by decide) (by decide) (by decide)

lemma isPlain_of_isHexDigit (c : Char) : isHexDigit c = true → IsPlain c :=
  isPlain_of_class (by decide) (by decide) (by decide)

lemma isPlain_of_isWordChar (c : Char) : isWordChar c = true → IsPlain c :=
  isPlain_of_class (by decide +kernel) (by decide +kernel) (by decide +kernel)

lemma isPlain_of_isIdentifierStart (c : Char) : isIdentifierStart c = true → IsPlain c :=
  isPlain_of_class (by decide +kernel) (by decide +kernel) (by decide +kernel)

lemma isPlain_of_isIdentifierPart (c : Char) : isIdentifierPart c = true → IsPlain c :=
  isPlain_of_class (by decide +kernel) (by decide +kernel) (by decide +kernel)

lemma isPlain_of_isSpacing (c : Char) : isSpacing c = true → IsPlain c :=
  isPlain_of_class (by decide) (by decide) (by decide)

lemma plainPrefix_charAt {c : Char} (hc : IsPlain c) (t : Text) :
    PlainPrefix (Rule.charAt c t) t := by
  rw [Rule.charAt]
  split
  · next h =>
    obtain ⟨t', rfl⟩ := List.head?_eq_some_iff.mp h
    exact (plainPrefix_zero t').cons hc
  · exact plainPrefix_zero t

lemma plainPrefix_sign (t : Text) :
    PlainPrefix (if t.head? = some '+' ∨ t.head? = some '-' then 1 else 0) t := by
  split
  · next h =>
    rcases h with h | h
    · obtain ⟨t', rfl⟩ := List.head?_eq_some_iff.mp h
      exact (plainPrefix_zero t').cons (by decide)
    · obtain ⟨t', rfl⟩ := List.head?_eq_some_iff.mp h
      exact (plainPrefix_zero t').cons (by decide)
  · exact plainPrefix_zero t

lemma plainPrefix_exponentExtent (t : Text) : PlainPrefix (exponentExtent t) t := by
  cases t with
  | nil => exact plainPrefix_zero []
  | cons e t =>
    rw [exponentExtent]
    split
    · next he =>
      have he : IsPlain e := by rcases he with rfl | rfl <;> decide
      have hsign := plainPrefix_sign t
      dsimp only
      -- the letter, a sign if there is one, and at least one digit
      generalize (if t.head? = some '+' ∨ t.head? = some '-' then 1 else 0) = n at hsign ⊢
      split
      · exact plainPrefix_zero _
      · rw [Nat.add_assoc, Nat.add_comm 1]
        exact (hsign.add (plainPrefix_runLength isPlain_of_isDigit _)).cons he
    · exact plainPrefix_zero _

lemma plainPrefix_floatExtent (t : Text) : PlainPrefix (floatExtent t) t := by
  have hdigits (t : Text) : PlainPrefix (runLength isDigit t) t :=
    plainPrefix_runLength isPlain_of_isDigit t
  unfold floatExtent
  dsimp only
  split
  · exact plainPrefix_zero t
  · split
    · next r hr =>
      rw [Nat.add_assoc, Nat.add_assoc]
      refine (hdigits t).add ?_
      rw [hr, Nat.add_comm 1]
      exact ((hdigits r).add (plainPrefix_exponentExtent _)).cons (by decide)
    · split
      · exact plainPrefix_zero t
      · exact (hdigits t).add (plainPrefix_exponentExtent _)

lemma plainPrefix_number (t : Text) : PlainPrefix (Rule.extent .number t) t := by
  have hdigits (t : Text) : PlainPrefix (runLength isDigit t) t :=
    plainPrefix_runLength isPlain_of_isDigit t
  -- only behind a zero can a number be hexadecimal
  by_cases hzero : ∃ x r, t = '0' :: x :: r
  · obtain ⟨x, r, rfl⟩ := hzero
    rw [Rule.extent]
    split
    · next hx =>
      have hx : IsPlain x := by rcases hx.1 with rfl | rfl <;> decide
      exact ((plainPrefix_runLength isPlain_of_isHexDigit r).cons hx).cons (by decide)
    · exact hdigits _
  · rw [Rule.extent]
    · exact hdigits t
    · exact fun x r ht => hzero ⟨x, r, ht⟩

/-- What a rule takes that is not for literals is plain. -/
lemma Rule.plainPrefix_extent {rule : Rule} (hstring : rule ≠ .string) (hchar : rule ≠ .char)
    (t : Text) : PlainPrefix (rule.extent t) t := by
  cases rule with
  | string => exact absurd rfl hstring
  | char => exact absurd rfl hchar
  | float => exact plainPrefix_floatExtent t
  | number => exact plainPrefix_number t
  | leftParen => exact plainPrefix_charAt (by decide) t
  | rightParen => exact plainPrefix_charAt (by decide) t
  | plus => exact plainPrefix_charAt (by decide) t
  | minus => exact plainPrefix_charAt (by decide) t
  | register =>
    by_cases hdollar : ∃ t', t = '$' :: t'
    · obtain ⟨t, rfl⟩ := hdollar
      rw [extent]
      split
      · exact plainPrefix_zero _
      · exact (plainPrefix_runLength isPlain_of_isWordChar t).cons (by decide)
    · rw [extent]
      · exact plainPrefix_zero t
      · exact fun t' ht' => hdollar ⟨t', ht'⟩
  | label =>
    cases t with
    | nil => exact plainPrefix_zero []
    | cons c t =>
      rw [extent]
      split
      · next hc =>
        exact (plainPrefix_runLength isPlain_of_isIdentifierPart t).cons
          (isPlain_of_isIdentifierStart c hc)
      · exact plainPrefix_zero _

lemma lt_length_of_stringBody? {n : Nat} (h : stringBody? t = some n) : n < t.length := by
  fun_induction stringBody? t generalizing n with
  | case1 => cases h
  | case2 t =>
    cases h
    exact Nat.succ_pos _
  | case3 t => cases h
  | case4 c t hline ih =>
    obtain ⟨k, hk, rfl⟩ := Option.map_eq_some_iff.mp h
    exact Nat.add_lt_add_right (ih hk) 2
  | case5 => cases h
  | case6 c t hquote hescape hc ih =>
    obtain ⟨k, hk, rfl⟩ := Option.map_eq_some_iff.mp h
    exact Nat.add_lt_add_right (ih hk) 1

lemma stringExtent_le_length (t : Text) : Rule.extent .string t ≤ t.length := by
  by_cases hquote : ∃ t', t = '"' :: t'
  · obtain ⟨t, rfl⟩ := hquote
    rw [Rule.extent]
    cases hn : stringBody? t with
    | none => exact Nat.zero_le _
    | some n => exact Nat.succ_le_succ (lt_length_of_stringBody? hn)
  · rw [Rule.extent]
    · exact Nat.zero_le _
    · exact fun t' ht => hquote ⟨t', ht⟩

lemma charExtent_le_length (t : Text) : charExtent t ≤ t.length := by
  unfold charExtent
  split
  · split
    · exact Nat.zero_le _
    · exact Nat.le_add_left 4 _
  · split
    · exact Nat.zero_le _
    · exact Nat.le_add_left 3 _
  · exact Nat.zero_le _

/-- A rule takes no more than there is. -/
lemma Rule.extent_le_length (rule : Rule) (t : Text) : rule.extent t ≤ t.length := by
  by_cases hstring : rule = .string
  · subst hstring
    exact stringExtent_le_length t
  by_cases hchar : rule = .char
  · subst hchar
    exact charExtent_le_length t
  · exact (plainPrefix_extent hstring hchar t).le_length

/-! ### Lexing -/

/-- In front of a text, a rule is the first that matches and takes the given characters. They do not
begin with spacing. -/
structure Rule.Takes (rule : Rule) (w t : Text) : Prop where
  head   : ∀ c ∈ w.head?, ¬ isSpacing c
  first  : first? (w ++ t) = some rule
  extent : rule.extent (w ++ t) = w.length

lemma Rule.Takes.ne_nil {rule : Rule} {w : Text} (h : rule.Takes w t) : w ≠ [] := by
  rintro rfl
  have hpos := extent_pos_of_first? h.first
  rw [h.extent] at hpos
  cases hpos

/-- The operands of a text that begins at an offset: what rules make of the characters that they
take, one after the other, with spacing between them. -/
inductive Lexed : (offset : Nat) → Text → List Lexeme → Prop where
  | nil {offset : Nat} : Lexed offset [] []
  | spacing {offset : Nat} {c : Char} {t : Text} {ls : List Lexeme} (hc : isSpacing c)
      (h : Lexed (offset + 1) t ls) : Lexed offset (c :: t) ls
  | operand {offset : Nat} {rule : Rule} {w t : Text} {operand : Operand} {ls : List Lexeme}
      (htakes : rule.Takes w t) (hoperand : rule.operand w = .ok operand)
      (h : Lexed (offset + w.length) t ls) :
      Lexed offset (w ++ t) (⟨operand, w, offset⟩ :: ls)

lemma lexFrom_spacing {c : Char} (hc : isSpacing c) (offset : Nat) (t : Text) :
    lexFrom offset (c :: t) = lexFrom (offset + 1) t := by
  rw [lexFrom, if_pos hc]

/-- What a rule takes gives one operand, in front of those that follow. -/
lemma Rule.Takes.lexFrom {rule : Rule} {w : Text} (h : rule.Takes w t) (offset : Nat) :
    lexFrom offset (w ++ t) = (do
      let op ← rule.operand w
      let rest ← MipsAsm.lexFrom (offset + w.length) t
      pure (⟨op, w, offset⟩ :: rest)) := by
  obtain ⟨hhead, hfirst, hextent⟩ := h
  have htake : (w ++ t).take w.length = w := List.take_left
  have hdrop : (w ++ t).drop w.length = t := List.drop_left
  rw [← hextent] at htake hdrop
  obtain ⟨c, w', rfl⟩ := List.exists_cons_of_ne_nil (ne_nil ⟨hhead, hfirst, hextent⟩)
  rw [List.cons_append] at hfirst htake hdrop ⊢
  rw [MipsAsm.lexFrom, if_neg (hhead c rfl)]
  split
  · next hnone => cases hnone.symm.trans hfirst
  · next rule' hrule' =>
    cases hrule'.symm.trans hfirst
    dsimp only
    rw [htake, hdrop, ← hextent]
    rfl

lemma lexed_of_lexFrom (h : lexFrom offset t = .ok ls) : Lexed offset t ls := by
  fun_induction lexFrom offset t generalizing ls with
  | case1 =>
    cases h
    exact .nil
  | case2 offset c t hc ih => exact .spacing hc (ih h)
  | case3 => cases h
  | case4 offset c t hc rule hrule n =>
    rename_i ih
    have hlength : ((c :: t).take n).length = n :=
      List.length_take_of_le (rule.extent_le_length _)
    obtain ⟨operand, hoperand, h⟩ := bind_eq_ok.mp h
    obtain ⟨rest, hrest, h⟩ := bind_eq_ok.mp h
    cases h
    have htakes : rule.Takes ((c :: t).take n) ((c :: t).drop n) := by
      refine ⟨fun d hd => ?_, ?_, ?_⟩
      · rw [List.head?_take, if_neg (Nat.ne_of_gt (Rule.extent_pos_of_first? hrule))] at hd
        cases hd
        exact hc
      · rw [List.take_append_drop]
        exact hrule
      · rw [List.take_append_drop, hlength]
    have hlexed : Lexed (offset + ((c :: t).take n).length) ((c :: t).drop n) rest := by
      rw [hlength]
      exact ih hrest
    have := Lexed.operand htakes hoperand hlexed
    rwa [List.take_append_drop] at this

lemma lexFrom_eq_ok_iff : lexFrom offset t = .ok ls ↔ Lexed offset t ls := by
  refine ⟨lexed_of_lexFrom, fun h => ?_⟩
  induction h with
  | nil => rw [lexFrom]
  | spacing hc _ ih => rw [lexFrom_spacing hc, ih]
  | operand htakes hoperand _ ih =>
    rw [htakes.lexFrom, hoperand, ih]
    rfl

end MipsAsm
