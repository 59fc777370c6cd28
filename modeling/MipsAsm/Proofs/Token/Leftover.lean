import MipsAsm.Proofs.Operand.Literals
import MipsAsm.Proofs.Preprocess.Settled
import MipsAsm.Proofs.Token.Locality

/-!
# Directives that are left over

Statements may not begin with a directive of the preprocessor. In front of such a directive a line
has labels and blanks only (`Lexer.Behind`). The preprocessor finds the directive there if a word
may begin at it, which is so unless it stands behind a blank that is no separator
(`Lexer.findDirective?_of_leftToPreprocessor`).
-/

namespace MipsAsm

/-! ### Words that spell directives -/

/-- A character whose lower case is one letter spells that letter, unless it is the Kelvin sign. -/
lemma isCaseOf_of_lowerChar {a c : Char} (h : lowerChar c = [a]) (ha : a ≠ 'k') :
    Scan.isCaseOf a c := by
  rw [lowerChar] at h
  rw [Scan.isCaseOf]
  split_ifs at h with hcapital hkelvin hdotted
  · cases h
    simp [hcapital]
  · cases h
    exact absurd rfl ha
  · cases h
  · cases h
    simp

/-- A word whose lower case is a keyword spells the keyword. The letters that get lost in the lower
case are in no keyword. -/
lemma spells_of_lower {k w : Text} (h : k = Text.lower w) (hk : ∀ a ∈ k, a ≠ 'k' ∧ a ≠ '\u0307') :
    Scan.spells k w := by
  induction w generalizing k with
  | nil =>
    subst h
    rfl
  | cons c w ih =>
    have hlower : k = lowerChar c ++ Text.lower w := h
    obtain ⟨a, hc⟩ : ∃ a, lowerChar c = [a] := by
      rw [lowerChar] at hlower ⊢
      split_ifs at hlower ⊢ with hcapital hkelvin hdotted
      · exact ⟨_, rfl⟩
      · exact ⟨_, rfl⟩
      · rw [hlower] at hk
        -- the dotted capital I alone has two characters in lower case
        exact absurd rfl (hk '\u0307' (by simp)).2
      · exact ⟨_, rfl⟩
    rw [hlower, hc, List.singleton_append, List.forall_mem_cons] at hk
    rw [hlower, hc, List.singleton_append, Scan.spells, Bool.and_eq_true]
    exact ⟨isCaseOf_of_lowerChar hc hk.1.1, ih rfl hk.2⟩

lemma spellsDirective_of_ofWord? {w : Text} {d : Directive} (h : Directive.ofWord? w = some d)
    (hd : d.ofPreprocessor) : spellsDirective w := by
  have hall : (preprocessorKeywords.all fun k =>
      k.all fun a => a ≠ 'k' && a ≠ '\u0307') = true := by
    decide +kernel
  have hletters : ∀ k ∈ preprocessorKeywords, ∀ a ∈ k, a ≠ 'k' ∧ a ≠ '\u0307' := by
    simpa using hall
  have hmem : d.dotted ∈ preprocessorKeywords := by
    cases d with
    | includeFile | eqv | beginMacro | endMacro => decide
    | _ => cases hd
  rw [spellsDirective, List.any_eq_true]
  exact ⟨_, hmem, spells_of_lower (Directive.eq_of_ofWord? h) (hletters _ hmem)⟩

namespace Scan

/-- No word that may begin in the text begins with a dot. -/
def Undotted : (fresh : Bool) → Text → Prop
  | _,     []     => True
  | fresh, c :: t => (fresh → c ≠ '.') ∧ Undotted (isSeparator c) t

variable {fresh : Bool} {t u : Text}

lemma undotted_append :
    Undotted fresh (t ++ u) ↔ Undotted fresh t ∧ Undotted (freshAfter fresh t) u := by
  induction t generalizing fresh with
  | nil => simp [Undotted, freshAfter]
  | cons c t ih => simp [Undotted, freshAfter, ih, and_assoc]

lemma undotted_of_not_mem (h : '.' ∉ t) : Undotted fresh t := by
  induction t generalizing fresh with
  | nil => trivial
  | cons c t ih =>
    rw [List.mem_cons, not_or] at h
    exact ⟨fun _ => Ne.symm h.1, ih h.2⟩

/-- Within a word no other one begins. -/
lemma undotted_word {w : Text} (hw : ∀ c ∈ w, ¬ isSeparator c)
    (hhead : fresh → w.head? ≠ some '.') : Undotted fresh w := by
  induction w generalizing fresh with
  | nil => trivial
  | cons c w ih =>
    rw [List.forall_mem_cons] at hw
    refine ⟨fun hfresh hc => hhead hfresh (congrArg some hc), ih hw.2 fun hc => ?_⟩
    exact absurd hc hw.1

/-- There are no directives where no word begins with a dot. -/
lemma findFrom?_of_undotted {s : State} (ht : Reading s fresh t) (h : Undotted fresh t) :
    findFrom? spellsDirective s t = none := by
  induction ht with
  | nil => rfl
  | char hc _ ih =>
    rw [findFrom?_cons hc, ih h.2]
    rfl
  | @word w t hne hw hend _ ih =>
    rw [undotted_append, freshAfter_word hne hw] at h
    have hnot : ¬ spellsDirective w := by
      intro hspells
      obtain ⟨c, w, rfl⟩ := List.exists_cons_of_ne_nil hne
      exact h.1.1 rfl (Option.some.inj (head?_of_spellsDirective hspells))
    rw [findFrom?_word hne hw hend, if_neg hnot, ih h.2]
    rfl

end Scan

namespace Lexer

open Scan

/-- The machine stands on a line behind code in which no word that may begin there begins with a
dot. -/
structure Behind (line done : Text) (l : Lexer) : Prop where
  line_eq  : line = done ++ l.rest
  pos      : l.pos = done.length
  code     : State.code.after done = .code
  undotted : Undotted true done

variable {line done : Text} {l : Lexer} {mode next : Mode}

lemma Behind.advance {passed left : Text} (h : Behind line done l) (hrest : l.rest = passed ++ left)
    (hcode : State.code.after passed = .code)
    (hundotted : Undotted (freshAfter true done) passed) :
    Behind line (done ++ passed) (l.advance passed.length) where
  line_eq  := by rw [h.line_eq, hrest, Lexer.advance, hrest, List.drop_left, List.append_assoc]
  pos      := by rw [Lexer.advance, h.pos, List.length_append]
  code     := by rw [State.after_append, h.code, hcode]
  undotted := undotted_append.mpr ⟨h.undotted, hundotted⟩

lemma Behind.newline_not_mem (h : Behind line done l) (hline : '\n' ∉ line) : '\n' ∉ l.rest :=
  fun hmem => hline (by rw [h.line_eq]; exact List.mem_append_right _ hmem)

lemma Behind.emit (h : Behind line done l) (ss : List Statement) : Behind line done (l.emit ss) :=
  ⟨h.line_eq, h.pos, h.code, h.undotted⟩

lemma after_blanks {blanks : Text} (h : ∀ c ∈ blanks, isBlank c) :
    State.code.after blanks = .code := by
  induction blanks with
  | nil => rfl
  | cons c t ih =>
    rw [List.forall_mem_cons] at h
    rw [State.after_cons, (isPlain_of_isBlank h.1).next, ih h.2]

lemma undotted_blanks {blanks : Text} (h : ∀ c ∈ blanks, isBlank c) (fresh : Bool) :
    Undotted fresh blanks :=
  undotted_of_not_mem fun hdot => absurd (h '.' hdot) (by decide)

/-- A label does not begin with a dot. -/
lemma head?_ne_of_isIdentifier {w : Text} (h : isIdentifier w) : w.head? ≠ some '.' := by
  have hdot : isIdentifierStart '.' = false := by decide +kernel
  cases w with
  | nil => nofun
  | cons c w =>
    rintro ⟨⟩
    rw [isIdentifier, hdot] at h
    cases h

/-- The text ends, if it is not empty, in a separator or in another blank. -/
def FreshOrBlank (done : Text) : Prop := ∀ c ∈ done.getLast?, isSeparator c ∨ isBlank c

lemma freshOrBlank_append {blanks : Text} (hfresh : freshAfter true done)
    (h : ∀ c ∈ blanks, isBlank c) : FreshOrBlank (done ++ blanks) := by
  rcases List.eq_nil_or_concat blanks with rfl | ⟨cs, c, rfl⟩
  · rw [List.append_nil]
    exact fun c hc => .inl (freshAfter_iff.mp hfresh c hc)
  · rw [List.concat_eq_append, ← List.append_assoc]
    intro c' hc'
    rw [List.getLast?_concat] at hc'
    cases hc'
    exact .inr (h c (by simp))

/-- Where the machine can be on a line before it fails at a directive of the preprocessor: behind
labels and blanks, or at the end of the line. -/
inductive Reached (line : Text) : Mode → Lexer → Prop where
  | initial {l : Lexer} {done : Text} (h : Behind line done l) (hfresh : freshAfter true done) :
      Reached line .initial l
  | finished {l : Lexer} (h : l.rest = []) : Reached line .initial l
  | comment {l : Lexer} {done : Text} (h : Behind line done l) : Reached line .comment l
  | directive {l : Lexer} {done : Text} (h : Behind line done l) (hfresh : FreshOrBlank done) :
      Reached line .directive l
  | statement {l : Lexer} {done : Text} (h : Behind line done l) : Reached line .statement l
  | label {l : Lexer} {done : Text} (h : Behind line done l) (htag : isTag l.rest) :
      Reached line .label l

/-! ### Moves on a line -/

lemma modeOf_eq_ok {c : Char} (h : ((modeOf c).mapError Failure.fault).map some = .ok (some next)) :
    next = .comment ∨ next = .directive ∨ next = .statement := by
  rw [modeOf] at h
  split_ifs at h <;> cases h
  · exact .inl rfl
  · exact .inr (.inl rfl)
  · exact .inr (.inr rfl)

lemma reached_readInitial (h : Reached line .initial l)
    (hs : (readInitial l).result = .ok (some next)) :
    Reached line next (readInitial l).state := by
  cases hrest : l.skipBlanks.rest with
  | nil =>
    rw [readInitial_of_nil hrest] at hs
    cases hs
  | cons c r =>
    cases h with
    | finished h =>
      have hnil : l.skipBlanks.rest = [] := by
        rw [skipBlanks, Lexer.advance, h]
        rfl
      cases hnil.symm.trans hrest
    | @initial _ done h hfresh =>
      have hblank : ∀ c ∈ l.rest.takeWhile isBlank, isBlank c := fun c hc =>
        List.mem_takeWhile_imp hc
      have hskipped : Behind line (done ++ l.rest.takeWhile isBlank) l.skipBlanks :=
        h.advance List.takeWhile_append_dropWhile.symm (after_blanks hblank)
          (undotted_blanks hblank _)
      have hbegun : Behind line (done ++ l.rest.takeWhile isBlank)
          { l.skipBlanks with start := l.skipBlanks.pos } :=
        ⟨hskipped.line_eq, hskipped.pos, hskipped.code, hskipped.undotted⟩
      rw [readInitial_of_cons hrest] at hs ⊢
      rcases modeOf_eq_ok hs with rfl | rfl | rfl
      · exact .comment hbegun
      · exact .directive hbegun (freshOrBlank_append hfresh hblank)
      · exact .statement hbegun

/-- A statement takes its line to the end. -/
lemma reached_of_lineLength (hline : '\n' ∉ l.rest) (ss : List Statement) :
    Reached line .initial ((l.emit ss).advance (lineLength l.rest)) :=
  .finished (drop_lineLength hline)

lemma reached_readComment (hline : '\n' ∉ line) (h : Reached line .comment l)
    (hs : (readComment l).result = .ok (some next)) :
    Reached line next (readComment l).state := by
  cases h with
  | comment h =>
    have hrest := h.newline_not_mem hline
    rw [readComment] at hs ⊢
    split at hs
    · cases hs
    · next c r hcons =>
      cases hs
      rw [hcons, List.mem_cons, not_or] at hrest
      -- there is no line feed before the end of the line
      refine .finished ?_
      rw [Lexer.advance, hcons, restOfLine_eq_self hrest.2]
      exact List.drop_length

lemma reached_readDirective (hline : '\n' ∉ line) (h : Reached line .directive l)
    (hs : (readDirective l).result = .ok (some next)) :
    Reached line next (readDirective l).state := by
  cases h with
  | directive h hfresh =>
    have hrest := h.newline_not_mem hline
    rw [readDirective] at hs ⊢
    dsimp only at hs ⊢
    split at hs
    · cases hs
    · split at hs
      · cases hs
      · cases hs
        exact reached_of_lineLength hrest _

lemma reached_readStatement (hline : '\n' ∉ line) (h : Reached line .statement l)
    (hs : (readStatement l).result = .ok (some next)) :
    Reached line next (readStatement l).state := by
  cases h with
  | statement h =>
    have hrest := h.newline_not_mem hline
    revert hs
    rw [readStatement]
    split
    · next htag =>
      rintro ⟨⟩
      exact .label h htag
    · split
      · nofun
      · dsimp only
        split
        · nofun
        · split
          · nofun
          · nofun
          · rintro ⟨⟩
            exact reached_of_lineLength hrest _

lemma reached_readLabel (h : Reached line .label l)
    (hs : (readLabel l).result = .ok (some next)) :
    Reached line next (readLabel l).state := by
  cases h with
  | @label _ done h htag =>
    revert hs
    unfold readLabel
    dsimp only
    split
    · next hword =>
      rintro ⟨⟩
      have hsep : ∀ c ∈ firstWord l.rest, ¬ isSeparator c := fun c hc =>
        not_isSeparator_of_mem_firstWord hc
      obtain ⟨r, hrest⟩ := exists_append_of_isTag htag
      have hcode : State.code.after (firstWord l.rest ++ [':']) = .code := by
        rw [State.after_append, State.after_word hsep]
        rfl
      have hundotted : Undotted (freshAfter true done) (firstWord l.rest ++ [':']) := by
        -- a label is an identifier, and so begins with no dot
        refine undotted_append.mpr ⟨undotted_word hsep fun _ hdot => ?_, undotted_of_not_mem ?_⟩
        · exact head?_ne_of_isIdentifier hword hdot
        · decide
      have hbehind := (h.emit [.label (firstWord l.rest)]).advance hrest hcode hundotted
      rw [List.length_append] at hbehind
      refine .initial hbehind ?_
      rw [← List.append_assoc, freshAfter_append]
      rfl
    · simp

lemma reached_step (hline : '\n' ∉ line) (h : Reached line mode l)
    (hs : (step mode l).result = .ok (some next)) : Reached line next (step mode l).state := by
  cases mode with
  | initial => exact reached_readInitial h hs
  | comment => exact reached_readComment hline h hs
  | directive => exact reached_readDirective hline h hs
  | statement => exact reached_readStatement hline h hs
  | label => exact reached_readLabel h hs

/-- A run on a line fails at a directive of the preprocessor only where the machine stands at it,
behind labels and blanks. -/
lemma stands_of_runFrom {d : Directive} (hline : '\n' ∉ line) (h : Reached line mode l)
    (he : (runFrom mode l).result = .error (.fault (.leftToPreprocessor d))) :
    ∃ done, Behind line done (runFrom mode l).state ∧ FreshOrBlank done ∧
      (runFrom mode l).state.Stands d := by
  induction mode, l using run_induction with
  | fails mode l e hstep =>
    rw [result_runFrom, hstep] at he
    rw [state_runFrom, hstep]
    cases he
    -- only the directive mode refuses a directive of the preprocessor
    rcases failsIn_step mode l with ⟨d', rfl, hstands, hresult, hstate⟩ | hfails
    · cases hstep.symm.trans hresult
      cases h with
      | @directive _ done h hfresh =>
        dsimp only
        rw [hstate]
        exact ⟨done, h, hfresh, hstands⟩
    · have harises := hfails _ hstep
      generalize hfailure : Failure.fault (.leftToPreprocessor d) = e at harises
      cases harises with
      | fault hf =>
        cases hfailure
        exact absurd rfl (hf d)
      | digits => cases hfailure
  | ends mode l hstep =>
    rw [result_runFrom, hstep] at he
    cases he
  | moves mode l next hstep ih =>
    rw [result_runFrom, hstep] at he
    rw [state_runFrom, hstep]
    exact ih (reached_step hline h hstep) he

/-- A program is not read for a directive of the preprocessor where the machine stops at one. -/
lemma readText_of_leftToPreprocessor {t : Text} {d : Directive} {place : Location}
    (h : (tokens?.run (ofText t)).result = .error (.diagnosed ⟨.leftToPreprocessor d, place⟩)) :
    (readText t).result = .error (.fault (.leftToPreprocessor d)) ∧
    (tokens?.run (ofText t)).state.pos = (readText t).state.pos := by
  have hlabels {ts : List Token} {e : Diagnostic} (he : Token.resolveLabels ts = .error e) :
      ∃ name, e.fault = .duplicateLabel name := by
    rw [Token.resolveLabels] at he
    split at he
    · cases he
      exact ⟨_, rfl⟩
    · cases he
  have hfault {e : Diagnostic} {n : Nat} (he : e.atLine n = ⟨.leftToPreprocessor d, place⟩) :
      e.fault = .leftToPreprocessor d := by
    rw [← Diagnostic.fault_atLine e n, he]
  revert h
  unfold Run.run tokens?
  dsimp only
  split
  · simp
  · next e he =>
    intro h
    have hplace : e.location = .unknown := unplaced_runFrom .initial (ofText t) he
    have hleft := hfault (Failure.diagnosed.inj (Except.error.inj h))
    refine ⟨he.trans ?_, rfl⟩
    rw [Failure.fault, ← hleft, ← hplace]
  · split
    · next e he =>
      intro h
      obtain ⟨name, hname⟩ := hlabels he
      cases hname.symm.trans (hfault (Failure.diagnosed.inj (Except.error.inj h)))
    · simp

/-- A line that cannot be read for a directive of the preprocessor has it where the machine stopped,
behind a separator or another blank, if anything. The preprocessor finds it there exactly if it is
not behind a blank that is no separator. -/
theorem findDirective?_of_leftToPreprocessor {d : Directive} {place : Location}
    (hline : '\n' ∉ line)
    (h : (tokens?.run (ofText line)).result =
      .error (.diagnosed ⟨.leftToPreprocessor d, place⟩)) :
    ∃ site : WordSite, site.text = line ∧
      site.before.length = (tokens?.run (ofText line)).state.pos ∧
      Directive.ofWord? site.word = some d ∧ d.ofPreprocessor ∧
      (∀ c ∈ site.before.getLast?, isSeparator c ∨ isBlank c) ∧
      (findDirective? line = some site ↔ ∀ c ∈ site.before.getLast?, isSeparator c) := by
  obtain ⟨hread, hpos⟩ := readText_of_leftToPreprocessor h
  have hbegin : Behind line [] (ofText line) := ⟨rfl, rfl, rfl, trivial⟩
  obtain ⟨done, hbehind, hblank, hword, hd⟩ :=
    stands_of_runFrom hline (.initial hbegin rfl) hread
  let rest := (readText line).state.rest
  have hrest : line = done ++ rest := hbehind.line_eq
  have hsplit : firstWord rest ++ afterWord rest = rest := firstWord_append_afterWord rest
  have hspells : spellsDirective (firstWord rest) := spellsDirective_of_ofWord? hword hd
  refine ⟨⟨done, firstWord rest, afterWord rest⟩, ?_, ?_, hword, hd, hblank, ?_, ?_⟩
  · rw [WordSite.text, List.append_assoc, hsplit, ← hrest]
  · rw [hpos]
    exact hbehind.pos.symm
  · intro hfound
    exact freshAfter_iff.mp (isFirst_of_findDirective? hfound).fresh
  · intro hsep
    have hfresh : freshAfter true done := freshAfter_iff.mpr hsep
    -- nothing is found in `done`, so the word behind it is the first
    have hdone : findDirective? done = none := by
      rw [findDirective?_eq_findFrom?]
      exact findFrom?_of_undotted (reading_code done) hbehind.undotted
    have hne : firstWord rest ≠ [] := by
      intro hnil
      rw [hnil] at hspells
      cases head?_of_spellsDirective hspells
    have hfound : findFrom? spellsDirective .code rest =
        some ⟨[], firstWord rest, afterWord rest⟩ := by
      have := findFrom?_word (p := spellsDirective) hne
        (fun c hc => not_isSeparator_of_mem_firstWord hc) (atWordEnd_afterWord rest)
      rwa [if_pos hspells, hsplit] at this
    rw [hrest, findDirective?_append fun _ => .inl hfresh, hdone, hbehind.code, hfound]
    simp [WordSite.prepend]

theorem findDirective?_of_leftToPreprocessor_label :
    (tokens?.run (ofText "x: .EQV A 1".toList)).result =
      .error (.diagnosed ⟨.leftToPreprocessor .eqv, .line 1⟩) ∧
    ∃ site : WordSite, site.before.length = 3 ∧
      findDirective? "x: .EQV A 1".toList = some site := by
  have hresult : (tokens?.run (ofText "x: .EQV A 1".toList)).result =
      .error (.diagnosed ⟨.leftToPreprocessor .eqv, .line 1⟩) := by
    decide +kernel
  have hstopped : (tokens?.run (ofText "x: .EQV A 1".toList)).state.pos = 3 := by
    decide +kernel
  obtain ⟨site, htext, hlength, -, -, -, hfound⟩ :=
    findDirective?_of_leftToPreprocessor (by decide) hresult
  rw [hstopped] at hlength
  have hbefore : site.before = "x: ".toList := by
    have := congrArg (List.take site.before.length) htext
    rw [WordSite.text, List.append_assoc, List.take_left, hlength] at this
    exact this
  refine ⟨hresult, site, hlength, hfound.mpr ?_⟩
  have hlast : List.getLast? "x: ".toList = some ' ' := by decide
  rw [hbefore, hlast]
  rintro _ ⟨⟩
  decide

/-- Behind a blank that is no separator a directive is not found. -/
theorem findDirective?_of_leftToPreprocessor_noBreakSpace :
    (tokens?.run (ofText "\u00a0.eqv A 1".toList)).result =
      .error (.diagnosed ⟨.leftToPreprocessor .eqv, .line 1⟩) ∧
    findDirective? "\u00a0.eqv A 1".toList = none := by
  constructor
  · decide +kernel
  · decide +kernel

end Lexer

end MipsAsm
