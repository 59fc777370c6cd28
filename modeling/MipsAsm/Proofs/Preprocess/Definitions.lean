import MipsAsm.Proofs.Preprocess.Settled
import MipsAsm.Proofs.Scan.Context

/-!
# Definitions in a text

A text defines symbols on the lines whose first directive is `.eqv`: `definitionsOf` is what is read
there. Where two texts stand one behind the other, the definitions are those of the one and then
those of the other (`definitionsOf_append`), unless the line on which they meet hides a definition
or makes its value longer (`Parted`).
-/

namespace MipsAsm

/-! ### Behind a definition -/

section

variable {a b : Text}

/-- What follows a definition does not matter if it is blank up to a comment. -/
lemma readDefinition_append
    (h : ∀ c ∈ Scan.stripCommentFrom (Scan.State.code.after a) b, isBlank c) :
    readDefinition (a ++ b) = readDefinition a := by
  have htrim : Text.trim (Scan.stripComment (a ++ b)) = Text.trim (Scan.stripComment a) := by
    rw [Scan.stripComment, Scan.stripComment, Scan.stripCommentFrom_append]
    split
    · next hself =>
      rw [hself]
      exact Text.trim_append h
    · rfl
  simp only [readDefinition, htrim]

lemma readDefinition_trimRight (t : Text) :
    readDefinition (Text.trimRight t) = readDefinition t := by
  obtain ⟨b, hb, hblank⟩ := Text.exists_trimRight_append t
  have hkept := Scan.isPrefix_stripCommentFrom (Scan.State.code.after (Text.trimRight t)) b
  have happend := readDefinition_append (a := Text.trimRight t) (b := b)
    fun c hc => hblank c (hkept.subset hc)
  rw [← hb] at happend
  exact happend.symm

end

/-! ### Definitions on a line -/

/-- What is read of the definition on a line, if the line holds one. -/
def definitionOn? (line : Text) : Option (Except Fault (Text × Text)) :=
  (UnitLine.definitionSite? line).map fun site => readDefinition site.after

/-- What is read of the definitions in a text, line by line. -/
def definitionsOf (t : Text) : List (Except Fault (Text × Text)) := t.lines.filterMap definitionOn?

/-- The last line of a text. -/
def Text.lastLine (t : Text) : Text := t.lines.getLastD []

/-- Texts that can stand one behind the other without a change to what they define. -/
structure Parted (a b : Text) : Prop where
  /-- The line on which they meet does not go on in an open literal or within a word. -/
  meets  : Meets a b
  /-- Behind a directive or in a comment there is no definition. -/
  hidden : (findDirective? a.lastLine).isSome ∨ Scan.State.code.after a = .comment →
    definitionOn? (Scan.restOfLine b) = none
  /-- Behind a definition there is nothing but blanks and a comment. -/
  value  : (definitionOn? a.lastLine).isSome →
    ∀ c ∈ Scan.stripCommentFrom (Scan.State.code.after a) (Scan.restOfLine b), isBlank c

lemma Scan.not_isSeparator_of_spells {k w : Text}
    (hk : ∀ a ∈ k, ∀ c, isCaseOf a c → ¬ isSeparator c) (h : spells k w) :
    ∀ c ∈ w, ¬ isSeparator c := by
  induction k generalizing w with
  | nil =>
    rw [spells, List.isEmpty_iff] at h
    simp [h]
  | cons a k ih =>
    cases w with
    | nil => simp
    | cons c w =>
      rw [spells, Bool.and_eq_true] at h
      rw [List.forall_mem_cons] at hk ⊢
      exact ⟨hk.1 c h.1, ih hk.2 h.2⟩

section

variable {l r : Text} {site : Scan.WordSite}

/-- Behind a directive a line goes on as code. -/
lemma after_of_findDirective? (h : findDirective? l = some site) :
    Scan.State.code.after l = Scan.State.code.after site.after := by
  have hfirst := isFirst_of_findDirective? h
  obtain ⟨k, hk, hspells⟩ := List.any_eq_true.mp hfirst.accepted
  have hword := Scan.not_isSeparator_of_spells
    (isKeyword_of_mem_preprocessorKeywords hk).not_isSeparator hspells
  rw [← Scan.text_of_findKeyword? h, Scan.WordSite.text, Scan.State.after_append,
    Scan.State.after_append, hfirst.code, Scan.State.after_word hword]

lemma findDirective?_of_definitionSite? (h : UnitLine.definitionSite? l = some site) :
    findDirective? l = some site := Option.eq_some_of_filter_eq_some h

/-- Where the first part of a line has a directive, the line has that one. -/
lemma definitionSite?_append (h : findDirective? (l ++ r) = (findDirective? l).map (·.append r)) :
    UnitLine.definitionSite? (l ++ r) = (UnitLine.definitionSite? l).map (·.append r) := by
  rw [UnitLine.definitionSite?, UnitLine.definitionSite?, h, Option.filter_map]
  rfl

/-- A definition in the first part of a line is that of the line. -/
lemma definitionOn?_append_left (h : findDirective? (l ++ r) = (findDirective? l).map (·.append r))
    (hvalue : (definitionOn? l).isSome →
      ∀ c ∈ Scan.stripCommentFrom (Scan.State.code.after l) r, isBlank c) :
    definitionOn? (l ++ r) = definitionOn? l := by
  rw [definitionOn?, definitionSite?_append h, definitionOn?]
  cases hsite : UnitLine.definitionSite? l with
  | none => rfl
  | some site =>
    have hblank := hvalue (by rw [definitionOn?, hsite]; rfl)
    rw [after_of_findDirective? (findDirective?_of_definitionSite? hsite)] at hblank
    exact congrArg some (readDefinition_append hblank)

lemma definitionOn?_eq_none (h : findDirective? l = none) : definitionOn? l = none := by
  rw [definitionOn?, UnitLine.definitionSite?, h]
  rfl

/-- From its first directive on, a line defines what it does. -/
lemma definitionOn?_from (h : findDirective? site.text = some site)
    (hword : Directive.ofWord? site.word = some .eqv) :
    definitionOn? (site.word ++ site.after) = some (readDefinition site.after) := by
  rw [definitionOn?, UnitLine.definitionSite?, findDirective?_from h, Option.filter_some,
    if_pos (decide_eq_true hword), Option.map_some]

/-- Anything that a line can go on with can stand behind a line without directive. -/
lemma Parted.of_none (hmeets : Meets l r) (hnone : findDirective? l = none)
    (hcode : Scan.State.code.after l = .code) (hl : '\n' ∉ l) : Parted l r := by
  have hlast : Text.lastLine l = l := by
    rw [Text.lastLine, Text.lines_eq_singleton hl]
    rfl
  refine ⟨hmeets, ?_, ?_⟩
  · rw [hlast, hnone, hcode]
    simp
  · rw [hlast, definitionOn?_eq_none hnone]
    simp

/-- A line in two parts defines what its parts do. -/
lemma Parted.definitionOn?_append (h : Parted l r) (hl : '\n' ∉ l) (hr : '\n' ∉ r) :
    (definitionOn? (l ++ r)).toList = (definitionOn? l).toList ++ (definitionOn? r).toList := by
  obtain ⟨hmeets, hhidden, hvalue⟩ := h
  rw [Text.lastLine, Text.lines_eq_singleton hl] at hhidden hvalue
  rw [Scan.restOfLine_eq_self hr] at hhidden hvalue
  rcases hmeets with hnil | hcomment | ⟨hcode, hmeets⟩
  · -- nothing follows
    rw [Scan.restOfLine_eq_self hr] at hnil
    subst hnil
    rw [List.append_nil]
    exact (List.append_nil _).symm
  · -- a comment goes on in `r`
    have hfirst : findDirective? (l ++ r) = (findDirective? l).map (·.append r) := by
      rw [findDirective?_append (fun h => by rw [hcomment] at h; cases h), hcomment,
        Scan.findFrom?_comment hr, Option.map_none, Option.or_none]
    rw [definitionOn?_append_left hfirst hvalue, hhidden (.inr hcomment)]
    simp
  · -- code goes on in `r`, which counts if `l` has no directive
    have hboth := findDirective?_append (a := l) (b := r) fun _ => hmeets
    cases hdirective : findDirective? l with
    | none =>
      rw [hdirective, hcode, ← findDirective?_eq_findFrom?, Option.map_none, Option.none_or]
        at hboth
      rw [definitionOn?_eq_none hdirective, definitionOn?, UnitLine.definitionSite?, hboth,
        Option.filter_map, Option.map_map]
      rfl
    | some site =>
      have hsome : (findDirective? l).isSome := by rw [hdirective]; rfl
      have hfirst : findDirective? (l ++ r) = (findDirective? l).map (·.append r) := by
        rw [hboth, hdirective]
        rfl
      rw [definitionOn?_append_left hfirst hvalue, hhidden (.inl hsome)]
      simp

end

/-! ### Definitions of texts in a row -/

section

variable {a b l t u : Text}

lemma definitionsOf_of_not_mem (hl : '\n' ∉ l) : definitionsOf l = (definitionOn? l).toList := by
  rw [definitionsOf, Text.lines_eq_singleton hl]
  cases h : definitionOn? l <;> simp [h]

lemma definitionsOf_append_newline :
    definitionsOf (t ++ '\n' :: u) = definitionsOf t ++ definitionsOf u := by
  rw [definitionsOf, Text.lines_append_newline_append, List.filterMap_append]
  rfl

lemma definitionsOf_replicate (n : Nat) (t : Text) :
    definitionsOf (List.replicate n '\n' ++ t) = definitionsOf t := by
  induction n with
  | zero => rfl
  | succ n ih =>
    rw [List.replicate_succ, List.cons_append]
    exact (definitionsOf_append_newline (t := [])).trans ih

lemma definitionsOf_joinLines {ls : List Text} (hne : ls ≠ []) :
    definitionsOf (Text.joinLines ls) = ls.flatMap definitionsOf := by
  rw [definitionsOf, Text.lines_joinLines_eq_flatMap hne, List.filterMap_flatMap]
  rfl

lemma lastLine_append_newline (hl : '\n' ∉ l) : Text.lastLine (u ++ '\n' :: l) = l := by
  rw [Text.lastLine, Text.lines_append_newline_append, Text.lines_eq_singleton hl]
  simp

lemma parted_newline (hl : '\n' ∉ l) : Parted (u ++ '\n' :: l) b ↔ Parted l b := by
  have hlast : Text.lastLine (u ++ '\n' :: l) = Text.lastLine l := by
    rw [lastLine_append_newline hl, Text.lastLine, Text.lines_eq_singleton hl]
    rfl
  have hafter : Scan.State.code.after (u ++ '\n' :: l) = Scan.State.code.after l := by
    rw [Scan.State.after_append, Scan.State.after_cons, Scan.State.next_newline]
  constructor
  · rintro ⟨hmeets, hhidden, hvalue⟩
    rw [hlast, hafter] at hhidden hvalue
    exact ⟨meets_newline.mp hmeets, hhidden, hvalue⟩
  · rintro ⟨hmeets, hhidden, hvalue⟩
    refine ⟨meets_newline.mpr hmeets, ?_, ?_⟩
    · rwa [hlast, hafter]
    · rwa [hlast, hafter]

lemma Parted.first (h : Parted a (l ++ '\n' :: t)) (hl : '\n' ∉ l) : Parted a l := by
  have hrest : Scan.restOfLine (l ++ '\n' :: t) = Scan.restOfLine l := by
    rw [Scan.restOfLine_append (by simp) hl, Scan.restOfLine_eq_self hl]
  refine ⟨h.meets.first hl, ?_, ?_⟩
  · rw [← hrest]
    exact h.hidden
  · rw [← hrest]
    exact h.value

/-- Texts that are parted define together what each of them does. -/
theorem definitionsOf_append (h : Parted a b) :
    definitionsOf (a ++ b) = definitionsOf a ++ definitionsOf b := by
  -- as for `Settled.append`, one line of each text is joined
  have hline {a : Text} (hmem : '\n' ∉ a) (h : Parted a b) :
      definitionsOf (a ++ b) = definitionsOf a ++ definitionsOf b := by
    by_cases hb : '\n' ∈ b
    · obtain ⟨l, t, rfl, hl⟩ := List.eq_append_cons_of_mem hb
      have hboth := (h.first hl).definitionOn?_append hmem hl
      rw [← List.append_assoc, definitionsOf_append_newline, definitionsOf_append_newline,
        definitionsOf_of_not_mem (by simp [hmem, hl]), definitionsOf_of_not_mem hmem,
        definitionsOf_of_not_mem hl, hboth, List.append_assoc]
    · rw [definitionsOf_of_not_mem (by simp [hmem, hb]), definitionsOf_of_not_mem hmem,
        definitionsOf_of_not_mem hb]
      exact h.definitionOn?_append hmem hb
  rcases exists_lastLine a with hmem | ⟨u, l, rfl, hmem⟩
  · exact hline hmem h
  · rw [List.append_assoc, List.cons_append, definitionsOf_append_newline,
      definitionsOf_append_newline, hline hmem ((parted_newline hmem).mp h), List.append_assoc]

end

end MipsAsm
