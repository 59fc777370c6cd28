import MipsAsm.Proofs.Operand.Literals
import MipsAsm.Proofs.Operand.Written

/-!
# Spacing

What stands between operands does not matter: the operands of a text are those of its pieces with
any other spacing between them, also where they stood next to each other (`lexOperands_spread`).

No rule looks far ahead. If what a rule takes lies within the beginning of a text, then it takes
the same of that beginning with spacing behind it (`Rule.local_extent`).
-/

namespace MipsAsm

open Scan

/-- The text is empty or begins with spacing. -/
def Apart (t : Text) : Prop := ∀ c ∈ t.head?, isSpacing c

/-- An extent depends on a beginning of the text alone, if it lies within the beginning and spacing
follows. -/
def Local (extent : Text → Nat) : Prop :=
  ∀ w t u, extent (w ++ t) ≤ w.length → Apart u → extent (w ++ u) = extent (w ++ t)

section

variable {p : Char → Bool} {t u w : Text} {c : Char}

/-- What is in front of what an extent depends on may be of any length. -/
lemma Local.eq_of_le {extent : Text → Nat} (hextent : Local extent) {k : Nat}
    (h : (if extent (w ++ t) = 0 then 0 else k + extent (w ++ t)) ≤ w.length + k) (hu : Apart u) :
    extent (w ++ u) = extent (w ++ t) := by
  refine hextent w t u ?_ hu
  split_ifs at h <;> omega

lemma Apart.nil : Apart [] := nofun

lemma Apart.cons (hc : isSpacing c) (t : Text) : Apart (c :: t) := by
  rintro c' ⟨⟩
  exact hc

/-- A class without spacing has no character that begins a text that stands apart. -/
lemma Apart.not_of_class (h : Apart t) (hp : " \t\r\x0c\x0b,\n".toList.all fun c => !p c) :
    ∀ c ∈ t.head?, p c = false := by
  intro c hc
  by_contra hpc
  exact not_isSpacing_of_class hp (eq_true_of_ne_false hpc) (h c hc)

/-! ### Runs -/

lemma local_runLength (hp : " \t\r\x0c\x0b,\n".toList.all fun c => !p c) : Local (runLength p) := by
  intro w t u h hu
  induction w with
  | nil =>
    have hu' : runLength p ([] ++ u) = 0 := runLength_append (by simp) (hu.not_of_class hp)
    rw [hu', Nat.le_zero.mp h]
  | cons c w ih =>
    rw [List.cons_append, List.cons_append, runLength, runLength] at *
    by_cases hc : p c
    · rw [List.takeWhile_cons_of_pos hc, List.takeWhile_cons_of_pos hc, List.length_cons,
        List.length_cons] at *
      exact congrArg Nat.succ (ih (Nat.succ_le_succ_iff.mp h))
    · rw [List.takeWhile_cons_of_neg hc, List.takeWhile_cons_of_neg hc]

lemma local_digits : Local (runLength isDigit) := local_runLength (by decide)

/-! ### Floating point numbers -/

lemma exponentExtent_of_apart (hu : Apart u) : exponentExtent u = 0 := by
  cases u with
  | nil => rfl
  | cons c u =>
    have hc : isSpacing c := hu c rfl
    rw [exponentExtent, if_neg]
    rintro (rfl | rfl) <;> cases hc

lemma runLength_of_apart (hu : Apart u) : runLength isDigit u = 0 :=
  runLength_isDigit_eq_zero (hu.not_of_class (by decide))

lemma exponentExtent_signed {e c : Char} (he : e = 'e' ∨ e = 'E') (hc : c = '+' ∨ c = '-')
    (t : Text) :
    exponentExtent (e :: c :: t) =
      if runLength isDigit t = 0 then 0 else 2 + runLength isDigit t := by
  have hsign : (c :: t).head? = some '+' ∨ (c :: t).head? = some '-' :=
    hc.imp (congrArg some) (congrArg some)
  rw [exponentExtent, if_pos he, if_pos hsign]
  rfl

lemma exponentExtent_unsigned {e c : Char} (he : e = 'e' ∨ e = 'E') (hc : ¬ (c = '+' ∨ c = '-'))
    (t : Text) :
    exponentExtent (e :: c :: t) =
      if runLength isDigit (c :: t) = 0 then 0 else 1 + runLength isDigit (c :: t) := by
  have hsign : ¬ ((c :: t).head? = some '+' ∨ (c :: t).head? = some '-') :=
    fun h => hc (h.imp Option.some.inj Option.some.inj)
  rw [exponentExtent, if_pos he, if_neg hsign]
  rfl

/-- A letter without more is no exponent. -/
lemma exponentExtent_letter {e : Char} (h : exponentExtent (e :: t) ≤ 1) :
    exponentExtent (e :: t) = 0 := by
  rw [exponentExtent] at h ⊢
  dsimp only at h ⊢
  split_ifs at h ⊢ <;> omega

lemma exponentExtent_letter_apart (hu : Apart u) (e : Char) : exponentExtent (e :: u) = 0 := by
  have hsign : ¬ (u.head? = some '+' ∨ u.head? = some '-') := by
    rintro (hs | hs) <;> cases hu _ hs
  rw [exponentExtent, if_neg hsign]
  split
  · exact if_pos (runLength_of_apart hu)
  · rfl

lemma local_exponentExtent : Local exponentExtent := by
  intro w t u h hu
  obtain _ | ⟨e, _ | ⟨c, w⟩⟩ := w
  · rw [List.nil_append, List.nil_append] at *
    rw [exponentExtent_of_apart hu, Nat.le_zero.mp h]
  · exact (exponentExtent_letter_apart hu e).trans (exponentExtent_letter h).symm
  · rw [List.cons_append, List.cons_append, List.cons_append, List.cons_append] at *
    by_cases he : e = 'e' ∨ e = 'E'
    · by_cases hc : c = '+' ∨ c = '-'
      · rw [exponentExtent_signed he hc] at h
        rw [exponentExtent_signed he hc, exponentExtent_signed he hc,
          local_digits.eq_of_le (k := 2) h hu]
      · rw [exponentExtent_unsigned he hc] at h
        rw [exponentExtent_unsigned he hc, exponentExtent_unsigned he hc, ← List.cons_append,
          local_digits.eq_of_le (k := 1) h hu]
        rfl
    · rw [exponentExtent, exponentExtent, if_neg he, if_neg he]

/-- What follows the digits of a floating point number takes some characters. -/
lemma floatExtent_eq_zero_or_lt (t : Text) :
    floatExtent t = 0 ∨ runLength isDigit t < floatExtent t := by
  rw [floatExtent]
  dsimp only
  split
  · exact .inl rfl
  · split
    · exact .inr (by omega)
    · split
      · exact .inl rfl
      · exact .inr (by omega)

/-- Digits with spacing behind them are no float. -/
lemma floatExtent_digits_apart (hw : ∀ c ∈ w, isDigit c) (hu : Apart u) :
    floatExtent (w ++ u) = 0 := by
  have hlength : runLength isDigit (w ++ u) = w.length :=
    runLength_append hw (hu.not_of_class (by decide))
  rw [floatExtent, hlength]
  dsimp only
  rw [List.drop_left]
  split
  · rfl
  · split
    · cases hu _ rfl
    · rw [exponentExtent_of_apart hu]
      rfl

/-- The extent of a floating point number with a point. -/
lemma floatExtent_point (hne : w ≠ []) (hw : ∀ c ∈ w, isDigit c) (t : Text) :
    floatExtent (w ++ '.' :: t) =
      w.length + 1 + runLength isDigit t + exponentExtent (t.drop (runLength isDigit t)) := by
  have hlength : runLength isDigit (w ++ '.' :: t) = w.length :=
    runLength_append hw (by rintro c ⟨⟩; decide)
  rw [floatExtent, hlength]
  dsimp only
  rw [List.drop_left, if_neg (by simpa using hne)]
  rfl

/-- The extent of a floating point number without a point. -/
lemma floatExtent_exponent (hne : w ≠ []) (hw : ∀ c ∈ w, isDigit c) (hc : isDigit c = false)
    (hpoint : c ≠ '.') (t : Text) :
    floatExtent (w ++ c :: t) =
      if exponentExtent (c :: t) = 0 then 0 else w.length + exponentExtent (c :: t) := by
  have hlength : runLength isDigit (w ++ c :: t) = w.length :=
    runLength_append hw (by rintro c ⟨⟩; exact hc)
  rw [floatExtent, hlength]
  dsimp only
  rw [List.drop_left, if_neg (by simpa using hne)]
  split
  · next heq =>
    cases heq
    exact absurd rfl hpoint
  · rfl

lemma local_floatExtent : Local floatExtent := by
  intro w t u h hu
  obtain ⟨ds, r, rfl, hds, hr⟩ : ∃ ds r, w = ds ++ r ∧ (∀ c ∈ ds, isDigit c) ∧
      ∀ c ∈ r.head?, isDigit c = false := by
    have hhead := List.head?_dropWhile_not isDigit w
    refine ⟨w.takeWhile isDigit, w.dropWhile isDigit, List.takeWhile_append_dropWhile.symm,
      fun c => List.mem_takeWhile_imp, fun c hc => ?_⟩
    rwa [Option.mem_def.mp hc] at hhead
  rw [List.length_append, Nat.add_comm] at h
  obtain _ | ⟨c, r⟩ := r
  · -- digits alone are no float, and a float would go on behind them
    rw [List.append_nil] at *
    rw [floatExtent_digits_apart hds hu]
    have hlength : ds.length ≤ runLength isDigit (ds ++ t) := by
      rw [runLength, List.takeWhile_append_of_pos hds, List.length_append]
      exact Nat.le_add_right _ _
    rcases floatExtent_eq_zero_or_lt (ds ++ t) with hzero | hlt
    · exact hzero.symm
    · simp only [List.length_nil] at h
      omega
  · rw [List.append_assoc, List.append_assoc] at *
    have hc := hr c rfl
    by_cases hne : ds = []
    · subst hne
      rw [List.nil_append, List.nil_append, floatExtent_eq_zero, floatExtent_eq_zero] <;>
        · rintro c' ⟨⟩
          exact hc
    · rw [List.cons_append, List.cons_append] at *
      by_cases hpoint : c = '.'
      · subst hpoint
        rw [floatExtent_point hne hds, List.length_cons] at h
        -- the digits behind the point, and then the exponent behind them
        have hfraction := local_digits r t u (by omega) hu
        have hle : runLength isDigit (r ++ t) ≤ r.length := by omega
        rw [List.drop_append_of_le_length hle] at h
        have hexponent := local_exponentExtent (r.drop (runLength isDigit (r ++ t))) t u
          (by rw [List.length_drop]; omega) hu
        rw [floatExtent_point hne hds, floatExtent_point hne hds, hfraction,
          List.drop_append_of_le_length hle, List.drop_append_of_le_length hle, hexponent]
      · rw [floatExtent_exponent hne hds hc hpoint] at h
        rw [floatExtent_exponent hne hds hc hpoint, floatExtent_exponent hne hds hc hpoint]
        have := local_exponentExtent.eq_of_le (w := c :: r) h hu
        rw [List.cons_append, List.cons_append] at this
        rw [this]

/-! ### Numbers -/

lemma extent_number_hex {x : Char} {r : Text} (hx : x = 'x' ∨ x = 'X')
    (hr : runLength isHexDigit r ≠ 0) :
    Rule.extent .number ('0' :: x :: r) = runLength isHexDigit r + 2 := by
  rw [Rule.extent]
  exact if_pos ⟨hx, hr⟩

lemma extent_number_decimal
    (h : ∀ x r, t = '0' :: x :: r → x = 'x' ∨ x = 'X' → runLength isHexDigit r = 0) :
    Rule.extent .number t = runLength isDigit t := by
  by_cases hzero : ∃ x r, t = '0' :: x :: r
  · obtain ⟨x, r, rfl⟩ := hzero
    rw [Rule.extent]
    exact if_neg fun hx => hx.2 (h x r rfl hx.1)
  · rw [Rule.extent]
    exact fun x r ht => hzero ⟨x, r, ht⟩

lemma local_number : Local (Rule.extent .number) := by
  intro w t u h hu
  have hhex : Local (runLength isHexDigit) := local_runLength (by decide)
  by_cases hbase : ∃ x r, w ++ t = '0' :: x :: r ∧ (x = 'x' ∨ x = 'X') ∧
      runLength isHexDigit r ≠ 0
  · obtain ⟨x, r, ht, hx, hr⟩ := hbase
    rw [ht, extent_number_hex hx hr] at h
    obtain _ | ⟨_, _ | ⟨_, w⟩⟩ := w
    · cases h
    · simp at h
    · rw [List.cons_append, List.cons_append] at ht
      cases ht
      -- the digits behind the letter are the same in front of spacing
      have heq := hhex w t u (by simpa using h) hu
      rw [← heq] at hr
      rw [List.cons_append, List.cons_append, List.cons_append, List.cons_append,
        extent_number_hex hx hr, extent_number_hex hx (heq ▸ hr), heq]
  · have ht : Rule.extent .number (w ++ t) = runLength isDigit (w ++ t) := by
      refine extent_number_decimal fun x r ht hx => ?_
      by_contra hr
      exact hbase ⟨x, r, ht, hx, hr⟩
    have hu' : Rule.extent .number (w ++ u) = runLength isDigit (w ++ u) := by
      -- neither the zero nor the letter behind it is spacing
      refine extent_number_decimal fun x r hwu hx => ?_
      obtain _ | ⟨_, _ | ⟨_, w⟩⟩ := w
      · have hzero := hu '0' (by rw [← List.nil_append u, hwu]; rfl)
        cases hzero
      · obtain ⟨rfl, rfl⟩ := List.cons.inj hwu
        have hspacing := hu x rfl
        rcases hx with rfl | rfl <;> cases hspacing
      · rw [List.cons_append, List.cons_append] at hwu
        cases hwu
        by_contra hr
        refine hbase ⟨x, w ++ t, rfl, hx, fun hzero => hr ?_⟩
        rw [hhex w t u (hzero ▸ Nat.zero_le _) hu, hzero]
    rw [ht] at h
    rw [ht, hu', local_digits w t u h hu]

/-! ### Rules -/

lemma local_register : Local (Rule.extent .register) := by
  intro w t u h hu
  have hword : Local (runLength isWordChar) := local_runLength (by decide +kernel)
  cases w with
  | nil =>
    rw [List.nil_append, List.nil_append] at *
    rw [Nat.le_zero.mp h]
    refine extent_register_eq_zero fun hdollar => ?_
    -- a dollar sign is no spacing
    cases hu '$' hdollar
  | cons c w =>
    by_cases hc : c = '$'
    · subst hc
      have hextent (x : Text) : Rule.extent .register ('$' :: x) =
          if runLength isWordChar x = 0 then 0 else 1 + runLength isWordChar x := by
        rw [Rule.extent, Nat.add_comm 1]
      rw [List.cons_append, List.cons_append, hextent] at *
      rw [hextent, hword.eq_of_le (k := 1) h hu]
    · have hdollar (x : Text) : (c :: w ++ x).head? ≠ some '$' := fun h => hc (Option.some.inj h)
      rw [extent_register_eq_zero (hdollar u), extent_register_eq_zero (hdollar t)]

lemma local_label : Local (Rule.extent .label) := by
  intro w t u h hu
  have hpart : Local (runLength isIdentifierPart) := local_runLength (by decide +kernel)
  cases w with
  | nil =>
    rw [List.nil_append, List.nil_append] at *
    rw [Nat.le_zero.mp h]
    cases u with
    | nil => rfl
    | cons c u =>
      have hc := hu.not_of_class (p := isIdentifierStart) (by decide +kernel) c rfl
      rw [Rule.extent, if_neg (Bool.eq_false_iff.mp hc)]
  | cons c w =>
    by_cases hc : isIdentifierStart c
    · have hextent (x : Text) : Rule.extent .label (c :: x) = runLength isIdentifierPart x + 1 := by
        rw [Rule.extent, if_pos hc]
      rw [List.cons_append, List.cons_append, hextent] at *
      rw [hextent, hpart w t u (Nat.le_of_succ_le_succ h) hu]
    · have hextent (x : Text) : Rule.extent .label (c :: x) = 0 := by
        rw [Rule.extent, if_neg hc]
      rw [List.cons_append, List.cons_append, hextent, hextent]

namespace Rule

/-- The rules that are tried before those for literals and for single characters. -/
def words : List Rule := [register, float, number, label]

lemma local_extent {rule : Rule} (h : rule ∈ words) : Local rule.extent := by
  cases rule with
  | register => exact local_register
  | float => exact local_floatExtent
  | number => exact local_number
  | label => exact local_label
  | string | char | leftParen | rightParen | plus | minus => exact absurd h (by decide)

/-- The rules that are tried before the first one that matches do not match. -/
lemma extent_eq_zero_of_first? {rule r : Rule} (h : first? t = some rule)
    (hr : r ∈ all.takeWhile (· ≠ rule)) : r.extent t = 0 := by
  obtain ⟨hpos, before, after, hall, hbefore⟩ := List.find?_eq_some_iff_append.mp h
  have hne : ∀ r' ∈ before, decide (r' ≠ rule) = true := by
    rintro r' hr'
    rw [decide_eq_true_eq]
    rintro rfl
    have hnot := hbefore r' hr'
    rw [hpos] at hnot
    cases hnot
  rw [hall, List.takeWhile_append_of_pos hne, List.takeWhile_cons_of_neg (by simp),
    List.append_nil] at hr
  simpa using hbefore r hr

/-- What a word rule takes it takes also with spacing behind it. -/
lemma Takes.apart_of_words {rule : Rule} (hrule : rule ∈ words) (h : rule.Takes w t)
    (hu : Apart u) : rule.Takes w u := by
  have hextent : rule.extent (w ++ u) = w.length := by
    rw [local_extent hrule w t u h.extent.le hu, h.extent]
  have hbefore : ∀ r ∈ all.takeWhile (· ≠ rule), r.extent (w ++ u) = 0 := by
    intro r hr
    have hwords : all.takeWhile (· ≠ rule) ⊆ words := by
      cases rule <;> first | decide | exact absurd hrule (by decide)
    have hzero := extent_eq_zero_of_first? h.first hr
    rw [local_extent (hwords hr) w t u (hzero ▸ Nat.zero_le _) hu, hzero]
  have hall : all = all.takeWhile (· ≠ rule) ++ rule :: (all.dropWhile (· ≠ rule)).tail := by
    cases rule <;> rfl
  refine ⟨h.head, first?_eq _ hall hbefore ?_, hextent⟩
  rw [hextent]
  exact List.length_pos_of_ne_nil h.ne_nil

lemma charAt_pos {c : Char} (h : 0 < charAt c t) : ∃ r, t = c :: r ∧ charAt c t = 1 := by
  rw [charAt] at h ⊢
  split at h
  · next hc =>
    obtain ⟨r, rfl⟩ := List.head?_eq_some_iff.mp hc
    exact ⟨r, rfl, if_pos rfl⟩
  · cases h

/-- A mark is the character of its rule. -/
lemma Takes.eq_mark {rule : Rule} {c : Char} (hrule : rule.extent = charAt c)
    (h : rule.Takes w t) : w = [c] := by
  have hpos := extent_pos_of_first? h.first
  have hextent := h.extent
  rw [hrule] at hpos hextent
  obtain ⟨r, hr, hone⟩ := charAt_pos hpos
  have hw : w.length = 1 := hextent.symm.trans hone
  exact (List.append_inj (show w ++ t = [c] ++ r from hr) hw).1

/-- What a rule takes it takes also with spacing behind it. -/
lemma Takes.apart {rule : Rule} (h : rule.Takes w t) (hu : Apart u) : rule.Takes w u := by
  have hpos := extent_pos_of_first? h.first
  cases rule with
  | register | float | number | label => exact h.apart_of_words (by decide) hu
  | string =>
    obtain ⟨body, rest, ht, hn, hbody⟩ := closedBody_of_stringExtent hpos
    obtain ⟨rfl, -⟩ := eq_literal (q := .double) ht (h.extent.symm.trans hn)
    exact takes_string hbody u
  | char =>
    obtain ⟨body, rest, ht, hn, hbody⟩ := charBody_of_charExtent hpos
    obtain ⟨rfl, -⟩ := eq_literal (q := .single) ht (h.extent.symm.trans hn)
    exact takes_char hbody u
  | leftParen =>
    obtain rfl := h.eq_mark (c := '(') rfl
    exact takes_mark (by simp) u
  | rightParen =>
    obtain rfl := h.eq_mark (c := ')') rfl
    exact takes_mark (by simp) u
  | plus =>
    obtain rfl := h.eq_mark (c := '+') rfl
    exact takes_mark (by simp) u
  | minus =>
    obtain rfl := h.eq_mark (c := '-') rfl
    exact takes_mark (by simp) u

end Rule

end

/-! ### Pieces -/

/-- The places of the operands in a text that begins at an offset. They are not empty, stand one
behind the other, and all that is in none of them is spacing. -/
structure Tiled (offset : Nat) (t : Text) (ls : List Lexeme) : Prop where
  placed  : ∀ l ∈ ls, l.text ≠ [] ∧
    ∃ before after, t = before ++ (l.text ++ after) ∧ l.offset = offset + before.length
  ordered : ls.Pairwise fun l l' => l.offset + l.text.length ≤ l'.offset
  spaced  : ∀ before c after, t = before ++ c :: after →
    (∀ l ∈ ls, offset + before.length < l.offset ∨
      l.offset + l.text.length ≤ offset + before.length) → isSpacing c

section

variable {offset : Nat} {t w : Text} {ls : List Lexeme}

lemma Tiled.offset_le (h : Tiled offset t ls) {l : Lexeme} (hl : l ∈ ls) : offset ≤ l.offset := by
  obtain ⟨-, before, -, -, hoffset⟩ := h.placed l hl
  omega

/-- What is in front of a text moves the places in it. -/
lemma Tiled.placed_append (h : Tiled (offset + w.length) t ls) :
    ∀ l ∈ ls, l.text ≠ [] ∧
      ∃ before after, w ++ t = before ++ (l.text ++ after) ∧
        l.offset = offset + before.length := by
  intro l hl
  obtain ⟨hne, before, after, rfl, hoffset⟩ := h.placed l hl
  refine ⟨hne, w ++ before, after, (List.append_assoc _ _ _).symm, ?_⟩
  rw [hoffset, List.length_append, Nat.add_assoc]

lemma Lexed.tiled (h : Lexed offset t ls) : Tiled offset t ls := by
  induction h with
  | nil => exact ⟨nofun, .nil, by simp⟩
  | @spacing offset c t ls hc _ ih =>
    refine ⟨ih.placed_append (w := [c]), ih.ordered, fun before c' after ht houtside => ?_⟩
    cases before with
    | nil =>
      cases ht
      exact hc
    | cons d before =>
      obtain ⟨-, ht⟩ := List.cons.inj ht
      refine ih.spaced before c' after ht fun l hl => ?_
      have := houtside l hl
      rw [List.length_cons] at this
      omega
  | @operand offset rule w t operand ls htakes _ _ ih =>
    refine ⟨?_, ?_, fun before c after ht houtside => ?_⟩
    · rw [List.forall_mem_cons]
      exact ⟨⟨htakes.ne_nil, [], t, rfl, rfl⟩, ih.placed_append⟩
    · rw [List.pairwise_cons]
      exact ⟨fun l hl => ih.offset_le hl, ih.ordered⟩
    · rw [List.forall_mem_cons] at houtside
      have hle : w.length ≤ before.length := by
        have := houtside.1
        dsimp only at this
        omega
      obtain ⟨before, rfl⟩ : w <+: before :=
        List.prefix_of_prefix_length_le ⟨t, rfl⟩ ⟨c :: after, ht.symm⟩ hle
      rw [List.append_assoc, List.append_right_inj] at ht
      refine ih.spaced before c after ht fun l hl => ?_
      have := houtside.2 l hl
      rw [List.length_append] at this
      omega

/-- Each operand is made of what its rule takes, also with spacing behind it. -/
lemma Lexed.lexes_apart (h : Lexed offset t ls) :
    ∀ l ∈ ls, ∀ u, Apart u → Lexes l.text [l.operand] u := by
  induction h with
  | nil => exact nofun
  | spacing _ _ ih => exact ih
  | operand htakes hoperand _ ih =>
    rw [List.forall_mem_cons]
    exact ⟨fun u hu => .of_takes (htakes.apart hu) hoperand, ih⟩

end

/-! ### Other spacing -/

/-- Spacing, and texts with spacing behind each. -/
def spread (s : Text) (parts : List (Text × Text)) : Text :=
  s ++ parts.flatMap fun (w, s) => w ++ s

lemma Lexes.spacing {s : Text} (hs : ∀ c ∈ s, isSpacing c) (t : Text) : Lexes s [] t := by
  induction s with
  | nil => exact .nil t
  | cons c s ih =>
    rw [List.forall_mem_cons] at hs
    have hc : Lexes [c] [] (s ++ t) := fun _ ls h => ⟨ls, .spacing hs.1 h, rfl⟩
    exact hc.cons (ih hs.2)

/-- Texts that are each read as one operand if spacing follows are read as these one behind the
other if there is spacing between any two. -/
lemma lexes_parts {ls : List Lexeme} {parts : List (Text × Text)}
    (hls : ∀ l ∈ ls, ∀ u, Apart u → Lexes l.text [l.operand] u)
    (htexts : parts.map Prod.fst = ls.map Lexeme.text)
    (hspacing : ∀ p ∈ parts, ∀ c ∈ p.2, isSpacing c) (hne : ∀ p ∈ parts.dropLast, p.2 ≠ []) :
    Lexes (parts.flatMap fun (w, s) => w ++ s) (ls.map Lexeme.operand) [] := by
  induction parts generalizing ls with
  | nil =>
    rw [List.map_nil, eq_comm, List.map_eq_nil_iff] at htexts
    rw [htexts]
    exact .nil []
  | cons p parts ih =>
    obtain _ | ⟨l, ls⟩ := ls
    · cases htexts
    · obtain ⟨w, s⟩ := p
      obtain ⟨rfl, htexts'⟩ := List.cons.inj htexts
      rw [List.forall_mem_cons] at hls hspacing
      have hne' : ∀ p ∈ parts.dropLast, p.2 ≠ [] := by
        intro p hp
        refine hne p ?_
        rw [List.dropLast_cons_of_ne_nil (List.ne_nil_of_mem (parts.dropLast_subset hp))]
        exact List.mem_cons_of_mem _ hp
      have hapart : Apart ((s ++ parts.flatMap fun (w, s) => w ++ s) ++ []) := by
        cases s with
        | cons c s => exact .cons (hspacing.1 c List.mem_cons_self) _
        | nil =>
          cases parts with
          | nil => exact .nil
          | cons p parts => exact absurd rfl (hne _ List.mem_cons_self)
      have hrest := (Lexes.spacing hspacing.1 _).append (ih hls.2 htexts' hspacing.2 hne')
      rw [List.flatMap_cons, List.append_assoc]
      exact (hls.1 _ hapart).append hrest

/-- Spacing is all that stands between operands, and any other spacing does as well. -/
theorem lexOperands_spread {t : Text} {ls : List Lexeme} (h : lexOperands t = .ok ls) :
    Tiled 0 t ls ∧
    ∀ s parts, parts.map Prod.fst = ls.map Lexeme.text → (∀ c ∈ s, isSpacing c) →
      (∀ p ∈ parts, ∀ c ∈ p.2, isSpacing c) → (∀ p ∈ parts.dropLast, p.2 ≠ []) →
      operands (spread s parts) = .ok (ls.map Lexeme.operand) := by
  have hlexed := lexed_of_lexFrom h
  refine ⟨hlexed.tiled, fun s parts htexts hs hspacing hne => Lexes.operands ?_⟩
  exact (Lexes.spacing hs _).append (lexes_parts hlexed.lexes_apart htexts hspacing hne)

/-- Texts that stand next to each other in `0xg+"a,"$8`, each with spacing behind it. -/
def respaced : List (Text × Text) :=
  [(['0'], [' ']), (['x', 'g'], [',', '\n']), (['+'], ['\t']), ("\"a,\"".toList, [',']),
    (['$', '8'], [])]

/-- A base without digits, a comma in a string, and a line feed between operands. -/
theorem lexOperands_spread_joined :
    lexOperands "0xg+\"a,\"$8".toList = .ok
      [⟨.number 0, ['0'], 0⟩, ⟨.label ['x', 'g'], ['x', 'g'], 1⟩, ⟨.plus, ['+'], 3⟩,
        ⟨.string ['a', ','], "\"a,\"".toList, 4⟩, ⟨.register 8, ['$', '8'], 8⟩] ∧
    spread [','] respaced = ",0 xg,\n+\t\"a,\",$8".toList ∧
    operands ",0 xg,\n+\t\"a,\",$8".toList =
      .ok [.number 0, .label ['x', 'g'], .plus, .string ['a', ','], .register 8] := by
  have h : lexOperands "0xg+\"a,\"$8".toList = .ok
      [⟨.number 0, ['0'], 0⟩, ⟨.label ['x', 'g'], ['x', 'g'], 1⟩, ⟨.plus, ['+'], 3⟩,
        ⟨.string ['a', ','], "\"a,\"".toList, 4⟩, ⟨.register 8, ['$', '8'], 8⟩] := by
    decide +kernel
  have hspread : spread [','] respaced = ",0 xg,\n+\t\"a,\",$8".toList := by decide +kernel
  have hspacing : ∀ p ∈ respaced, p.2.all isSpacing := by decide +kernel
  refine ⟨h, hspread, ?_⟩
  rw [← hspread]
  exact (lexOperands_spread h).2 _ _ rfl (List.forall_mem_singleton.mpr rfl)
    (fun p hp => List.all_eq_true.mp (hspacing p hp)) (by decide +kernel)

end MipsAsm
