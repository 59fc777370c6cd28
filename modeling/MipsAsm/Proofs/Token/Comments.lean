import MipsAsm.Proofs.Scan.Context
import MipsAsm.Proofs.Token.Origin

/-!
# Comments

A line is read as it is read without its comment, and so is a program (`tokenize_stripComments`).
The machine begins each statement, and reads each word, where the scanner of contexts is in code: it
has only blanks, words and colons behind it (`Lexer.Uncommented`).
-/

namespace MipsAsm

open Scan

namespace Lexer

lemma operandText_stripComment {t : Text} (h : '\n' ∉ t) :
    operandText (stripComment t) = operandText t := by
  have hstripped : '\n' ∉ stripComment t := fun hmem => h ((isPrefix_stripComment t).subset hmem)
  rw [operandText, operandText, restOfLine_eq_self h, restOfLine_eq_self hstripped]
  exact stripCommentFrom_stripCommentFrom .code t

/-! ### The machine without the comment -/

/-- The machine on a line, and where it is on the line without its comment. A statement that is
begun begins with no comment sign, and a label has its colon. -/
structure Uncommented (mode : Mode) (l l' : Lexer) : Prop where
  newlines        : l.newlines = #[]
  newlines'       : l'.newlines = #[]
  tokens          : l'.tokens = l.tokens
  newline_not_mem : '\n' ∉ l.rest
  rest            : l'.rest = stripComment l.rest
  mode_ne         : mode ≠ .comment
  head_ne         : mode ≠ .initial → l.rest.head? ≠ some '#'
  isTag           : mode = .label → Scan.isTag l.rest

/-- A move on a line, and what it is on the line without its comment: both end alike, or they go on
side by side. -/
structure Alike (o o' : Outcome Lexer Failure (Option Mode)) : Prop where
  result : o'.result = o.result
  tokens : o'.state.tokens = o.state.tokens
  next   : ∀ mode, o.result = .ok (some mode) → Uncommented mode o.state o'.state

/-- Both machines come to the same result with the same tokens. -/
def SameRun (mode : Mode) (l l' : Lexer) : Prop :=
  (runFrom mode l').result = (runFrom mode l).result ∧
  (runFrom mode l').state.tokens = (runFrom mode l).state.tokens

namespace Uncommented

variable {mode : Mode} {l l' : Lexer}

lemma line_eq (h : Uncommented mode l l') : l'.line = l.line :=
  (line_eq_one h.newlines').trans (line_eq_one h.newlines).symm

lemma firstWord_eq (h : Uncommented mode l l') : firstWord l'.rest = firstWord l.rest := by
  rw [h.rest, firstWord_stripComment]

lemma operandText_eq (h : Uncommented mode l l') :
    operandText (afterWord l'.rest) = operandText (afterWord l.rest) := by
  rw [h.rest, afterWord_stripComment, operandText_stripComment]
  exact fun hmem => h.newline_not_mem ((List.dropWhile_sublist _).mem hmem)

/-- Both machines take the same code. -/
lemma advance {passed left : Text} (h : Uncommented mode l l') (hrest : l.rest = passed ++ left)
    (hpassed : Complete passed) :
    Uncommented .initial (l.advance passed.length) (l'.advance passed.length) where
  newlines        := h.newlines
  newlines'       := h.newlines'
  tokens          := h.tokens
  newline_not_mem := fun hmem => h.newline_not_mem (List.mem_of_mem_drop hmem)
  rest            := by
    rw [Lexer.advance, Lexer.advance, h.rest, hrest, hpassed.stripComment_append, List.drop_left,
      List.drop_left]
  mode_ne         := nofun
  head_ne         := nofun
  isTag           := nofun

/-- Both machines add the same statements. -/
lemma emit (h : Uncommented mode l l') (ss : List Statement) :
    Uncommented mode (l.emit ss) (l'.emit ss) where
  newlines        := h.newlines
  newlines'       := h.newlines'
  tokens          := by rw [Lexer.emit, Lexer.emit, h.tokens, h.line_eq]
  newline_not_mem := h.newline_not_mem
  rest            := h.rest
  mode_ne         := h.mode_ne
  head_ne         := h.head_ne
  isTag           := h.isTag

/-- A statement takes either line to its end. -/
lemma finish (h : Uncommented mode l l') (ss : List Statement) :
    Uncommented .initial ((l.emit ss).advance (lineLength l.rest))
      ((l'.emit ss).advance (lineLength l'.rest)) := by
  have hstripped : '\n' ∉ l'.rest := by
    rw [h.rest]
    exact fun hmem => h.newline_not_mem ((isPrefix_stripComment _).subset hmem)
  have hend : ((l.emit ss).advance (lineLength l.rest)).rest = [] :=
    drop_lineLength h.newline_not_mem
  have hend' : ((l'.emit ss).advance (lineLength l'.rest)).rest = [] := drop_lineLength hstripped
  exact {
    newlines        := h.newlines
    newlines'       := h.newlines'
    tokens          := (h.emit ss).tokens
    newline_not_mem := by rw [hend]; nofun
    rest            := by rw [hend, hend']; rfl
    mode_ne         := nofun
    head_ne         := nofun
    isTag           := nofun }

/-! ### Moves -/

/-- Both machines fail. -/
lemma alike_of_error (h : Uncommented mode l l') (e : Failure) (events events' : List Event) :
    Alike ⟨.error e, l, events⟩ ⟨.error e, l', events'⟩ where
  result := rfl
  tokens := h.tokens
  next   := by
    intro next hnext
    cases hnext

lemma skipBlanks (h : Uncommented .initial l l') :
    Uncommented .initial l.skipBlanks l'.skipBlanks := by
  have htake : l'.rest.takeWhile isBlank = l.rest.takeWhile isBlank := by
    rw [h.rest, takeWhile_stripComment isPlain_of_isBlank]
  rw [Lexer.skipBlanks, Lexer.skipBlanks, htake]
  exact h.advance List.takeWhile_append_dropWhile.symm
    (complete_of_isPlain fun c hc => isPlain_of_isBlank (List.mem_takeWhile_imp hc))

lemma readDirective (h : Uncommented .directive l l') :
    Alike (Lexer.readDirective l) (Lexer.readDirective l') := by
  rw [Lexer.readDirective, Lexer.readDirective]
  dsimp only
  rw [h.firstWord_eq, h.operandText_eq]
  cases Directive.ofWord? (firstWord l.rest) with
  | none => exact h.alike_of_error _ _ _
  | some d =>
    dsimp only
    cases d.statements (operandText (afterWord l.rest)) with
    | error e => exact h.alike_of_error _ _ _
    | ok ss =>
      refine ⟨rfl, (h.emit ss).tokens, ?_⟩
      rintro next ⟨⟩
      exact h.finish ss

lemma readStatement (h : Uncommented .statement l l') :
    Alike (Lexer.readStatement l) (Lexer.readStatement l') := by
  have htag : Scan.isTag l'.rest = Scan.isTag l.rest := by rw [h.rest, isTag_stripComment]
  have hhead : l'.rest.head? = l.rest.head? := by
    rw [h.rest, head?_stripComment (h.head_ne (by decide))]
  rw [Lexer.readStatement, Lexer.readStatement, htag, h.firstWord_eq, h.operandText_eq]
  by_cases hlabel : Scan.isTag l.rest
  · rw [if_pos hlabel, if_pos hlabel]
    refine ⟨rfl, h.tokens, ?_⟩
    rintro next ⟨⟩
    exact ⟨h.newlines, h.newlines', h.tokens, h.newline_not_mem, h.rest, by decide,
      fun _ => h.head_ne (by decide), fun _ => hlabel⟩
  · rw [if_neg hlabel, if_neg hlabel]
    cases firstWord l.rest with
    | nil =>
      rw [List.headD_eq_head?_getD, List.headD_eq_head?_getD, hhead]
      exact h.alike_of_error _ _ _
    | cons c r =>
      dsimp only
      cases Instruction.candidates (c :: r) with
      | nil => exact h.alike_of_error _ _ _
      | cons i is =>
        dsimp only
        cases firstCandidate (operandText (afterWord l.rest)) (i :: is) with
        | error e => exact h.alike_of_error _ _ _
        | ok found =>
          cases found with
          | none => exact h.alike_of_error _ _ _
          | some found =>
            rw [h.line_eq]
            refine ⟨rfl, (h.emit _).tokens, ?_⟩
            rintro next ⟨⟩
            exact h.finish _

lemma readLabel (h : Uncommented .label l l') :
    Alike (Lexer.readLabel l) (Lexer.readLabel l') := by
  unfold Lexer.readLabel
  dsimp only
  rw [h.firstWord_eq]
  by_cases hname : isIdentifier (firstWord l.rest)
  · rw [if_pos hname, if_pos hname]
    refine ⟨rfl, (h.emit _).tokens, ?_⟩
    rintro next ⟨⟩
    -- the name and its colon are in front of the comment
    obtain ⟨r, hrest⟩ := exists_append_of_isTag (h.isTag rfl)
    have hcolon : Complete [':'] := complete_cons (by decide) complete_nil
    have hword : Complete (firstWord l.rest) := complete_of_isPlain fun c hc =>
      isPlain_of_not_isSeparator (List.mem_takeWhile_imp (p := fun c => !isSeparator c) hc)
    have := (h.emit [.label (firstWord l.rest)]).advance hrest (hword.append hcolon)
    rwa [List.length_append] at this
  · rw [if_neg hname, if_neg hname]
    exact h.alike_of_error _ _ _

/-- Where a statement is next, both machines begin it. -/
lemma readInitial (h : Uncommented .initial l l') (hcode : l.skipBlanks.rest.head? ≠ some '#') :
    Alike (Lexer.readInitial l) (Lexer.readInitial l') := by
  have hskip := h.skipBlanks
  have hhead : l'.skipBlanks.rest.head? = l.skipBlanks.rest.head? := by
    rw [hskip.rest, head?_stripComment hcode]
  cases hrest : l.skipBlanks.rest with
  | nil =>
    rw [hrest, List.head?_nil, List.head?_eq_none_iff] at hhead
    rw [readInitial_of_nil hrest, readInitial_of_nil hhead]
    exact ⟨rfl, hskip.tokens, nofun⟩
  | cons c r =>
    rw [hrest, List.head?_cons, List.head?_eq_some_iff] at hhead
    obtain ⟨r', hrest'⟩ := hhead
    rw [readInitial_of_cons hrest, readInitial_of_cons hrest']
    refine ⟨rfl, hskip.tokens, fun next hnext => ?_⟩
    have hmode : modeOf c = .ok next := by
      cases hmode : modeOf c with
      | error e =>
        rw [hmode] at hnext
        cases hnext
      | ok mode =>
        rw [hmode] at hnext
        cases hnext
        rfl
    -- so the next mode is not that of comments
    have hne : c ≠ '#' := by
      rintro rfl
      exact hcode (by rw [hrest]; rfl)
    refine ⟨hskip.newlines, hskip.newlines', hskip.tokens, hskip.newline_not_mem, hskip.rest,
      ?_, fun _ => hcode, ?_⟩
    · rintro rfl
      rw [modeOf, if_neg hne] at hmode
      split_ifs at hmode <;> cases hmode
    · rintro rfl
      exact absurd hmode (modeOf_ne_label c)

/-- Where a comment is next, one machine skips it to the end of the line, where the other one is. -/
lemma sameRun_comment (h : Uncommented .initial l l')
    (hcomment : l.skipBlanks.rest.head? = some '#') : SameRun .initial l l' := by
  have hskip := h.skipBlanks
  obtain ⟨r, hr⟩ := List.head?_eq_some_iff.mp hcomment
  have hend' : l'.skipBlanks.rest = [] := by rw [hskip.rest, hr, stripComment_comment]
  have hline : '\n' ∉ r := fun hmem =>
    hskip.newline_not_mem (by rw [hr]; exact List.mem_cons_of_mem _ hmem)
  have hbegun : Lexer.readInitial l =
      ⟨.ok (some .comment), { l.skipBlanks with start := l.skipBlanks.pos }, []⟩ := by
    rw [readInitial_of_cons hr]
    rfl
  generalize hcomment : { l.skipBlanks with start := l.skipBlanks.pos } = m at hbegun
  have hm : m.rest = '#' :: r := by
    rw [← hcomment]
    exact hr
  have hskipped : readComment m = ⟨.ok (some .initial), m.advance (r.length + 1), []⟩ := by
    have hline' : '\n' ∉ '#' :: r := List.not_mem_cons_of_ne_of_not_mem (by decide) hline
    rw [readComment_of_sign (by rw [hm]; rfl), hm, restOfLine_eq_self hline', List.length_cons]
  have hend : (m.advance (r.length + 1)).skipBlanks.rest = [] := by
    simp [Lexer.skipBlanks, Lexer.advance, hm]
  rw [SameRun]
  simp only [result_runFrom .initial, state_runFrom .initial, result_runFrom .comment,
    state_runFrom .comment, Lexer.step, hbegun, hskipped, readInitial_of_nil hend,
    readInitial_of_nil hend', true_and]
  rw [hskip.tokens]
  show _ = m.tokens
  rw [← hcomment]

/-- The machines come to the same end, or move alike. -/
lemma step (h : Uncommented mode l l') :
    SameRun mode l l' ∨ Alike (Lexer.step mode l) (Lexer.step mode l') := by
  cases mode with
  | initial =>
    by_cases hcomment : l.skipBlanks.rest.head? = some '#'
    · exact .inl (h.sameRun_comment hcomment)
    · exact .inr (h.readInitial hcomment)
  | comment => exact absurd rfl h.mode_ne
  | directive => exact .inr h.readDirective
  | statement => exact .inr h.readStatement
  | label => exact .inr h.readLabel

/-- The machines come to the same end. -/
lemma sameRun (h : Uncommented mode l l') : SameRun mode l l' := by
  induction mode, l using run_induction generalizing l' with
  | fails mode l e hstep =>
    rcases h.step with hsame | halike
    · exact hsame
    · rw [SameRun, result_runFrom, result_runFrom, state_runFrom, state_runFrom, halike.result,
        hstep]
      exact ⟨rfl, halike.tokens⟩
  | ends mode l hstep =>
    rcases h.step with hsame | halike
    · exact hsame
    · rw [SameRun, result_runFrom, result_runFrom, state_runFrom, state_runFrom, halike.result,
        hstep]
      exact ⟨rfl, halike.tokens⟩
  | moves mode l next hstep ih =>
    rcases h.step with hsame | halike
    · exact hsame
    · rw [SameRun, result_runFrom, result_runFrom, state_runFrom, state_runFrom, halike.result,
        hstep]
      exact ih (halike.next next hstep)

end Uncommented

/-! ### Lines and programs -/

variable {line t : Text}

/-- A line is read as it is read without its comment. -/
lemma readText_stripComment (h : '\n' ∉ line) :
    (readText (stripComment line)).result = (readText line).result ∧
    (readText (stripComment line)).state.tokens = (readText line).state.tokens := by
  have hstripped : '\n' ∉ stripComment line := fun hmem =>
    h ((isPrefix_stripComment line).subset hmem)
  have hstart : Uncommented .initial (ofText line) (ofText (stripComment line)) := {
    newlines        := newlines_eq_empty h
    newlines'       := newlines_eq_empty hstripped
    tokens          := rfl
    newline_not_mem := h
    rest            := rfl
    mode_ne         := nofun
    head_ne         := nofun
    isTag           := nofun }
  exact hstart.sameRun

/-- The lines of a text with its comments taken away. -/
lemma lines_stripComments (t : Text) :
    (Text.joinLines (t.lines.map stripComment)).lines = t.lines.map stripComment := by
  refine Text.lines_joinLines (by simp [Text.lines_ne_nil]) fun line hline hmem => ?_
  obtain ⟨line', hline', rfl⟩ := List.mem_map.mp hline
  exact Text.newline_not_mem_of_mem_lines hline' ((isPrefix_stripComment line').subset hmem)

lemma lineTokens_stripComments (t : Text) :
    lineTokens (Text.joinLines (t.lines.map stripComment)) = lineTokens t := by
  rw [lineTokens, lines_stripComments, List.zipIdx_map, List.flatMap_map]
  refine List.flatMap_congr fun p hp => ?_
  have hline : p.1 ∈ t.lines := List.fst_mem_of_mem_zipIdx hp
  rw [tokensOnLine, tokensOnLine]
  exact congrArg (fun tokens : Array Token => tokens.toList.map (Token.onLine p.2))
    (readText_stripComment (Text.newline_not_mem_of_mem_lines hline)).2

end Lexer

/-- Comments do not matter: a program has the tokens that it has when the comment of each line is
taken away, or fails in the same way, with the same cause at the same place. -/
theorem tokenize_stripComments (t : Text) :
    tokenize (Text.joinLines (t.lines.map stripComment)) = tokenize t := by
  have hlines := Lexer.lines_stripComments t
  have hresult (line : Text) (hline : line ∈ t.lines) :
      (Lexer.readText (stripComment line)).result = (Lexer.readText line).result :=
    (Lexer.readText_stripComment (Text.newline_not_mem_of_mem_lines hline)).1
  by_cases hok : ∀ line ∈ t.lines, (Lexer.readText line).result = .ok ()
  · have hok' : ∀ line ∈ t.lines.map stripComment, (Lexer.readText line).result = .ok () := by
      intro line hline
      obtain ⟨line, hmem, rfl⟩ := List.mem_map.mp hline
      rw [hresult line hmem, hok line hmem]
    rw [← hlines] at hok'
    rw [Lexer.tokenize_of_lines_ok hok, Lexer.tokenize_of_lines_ok hok',
      Lexer.lineTokens_stripComments]
  · obtain ⟨i, line, e, hline, hbefore, he⟩ := Lexer.exists_first_failure hok
    have hline' : (t.lines.map stripComment)[i]? = some (stripComment line) := by
      rw [List.getElem?_map, hline]
      rfl
    have hbefore' : ∀ line' ∈ (t.lines.map stripComment).take i,
        (Lexer.readText line').result = .ok () := by
      intro line' hline'
      rw [← List.map_take] at hline'
      obtain ⟨line', hmem, rfl⟩ := List.mem_map.mp hline'
      rw [hresult line' (List.mem_of_mem_take hmem), hbefore line' hmem]
    have he' : (Lexer.readText (stripComment line)).result = .error e := by
      rw [hresult line (List.mem_of_getElem? hline), he]
    rw [← hlines] at hline' hbefore'
    rw [Lexer.tokenize_of_first_failure hline hbefore he,
      Lexer.tokenize_of_first_failure hline' hbefore' he']

-- comment signs in a string, behind a label and in a line that is refused
example :
    Text.joinLines ((Text.lines "a: # b\n.ascii \"#\" # c\nnop # \"\n'#".toList).map stripComment) =
      "a: \n.ascii \"#\" \nnop \n'#".toList ∧
    tokenize "a: \n.ascii \"#\" \nnop \n'#".toList =
      .error (.diagnosed ⟨.unexpectedCharacter '\'', .line 4⟩) := by
  decide +kernel

end MipsAsm
