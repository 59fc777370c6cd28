import MipsAsm.Proofs.Scan.Line
import MipsAsm.Token.Lexer

/-!
# One line of a program

The machine on a whole program and the machine on one of its lines, where the first is on that line:
`Lexer.OnLine`. Each move keeps them together, or fails on both in the same way:
`Lexer.OnLine.step`.
-/

namespace MipsAsm

open Scan

/-- The token on another line. -/
def Token.onLine (n : Nat) (t : Token) : Token := { t with line := n }

/-! ### Scanning up to the end of a line -/

section

variable {line after : Text}

lemma dropWhile_append_stop {p : Char → Bool} (h : ∀ c ∈ after.head?, p c = false) :
    (line ++ after).dropWhile p = line.dropWhile p ++ after := by
  induction line with
  | nil =>
    cases after with
    | nil => rfl
    | cons c r => exact List.dropWhile_cons_of_neg (by simp [h c rfl])
  | cons c line ih =>
    rw [List.cons_append, List.dropWhile_cons, List.dropWhile_cons]
    split
    · exact ih
    · rfl

variable (hafter : ∀ c ∈ after.head?, c = '\n')
include hafter

lemma firstWord_append : firstWord (line ++ after) = firstWord line :=
  takeWhile_append_stop fun c hc => by
    rw [hafter c hc]
    rfl

lemma afterWord_append : afterWord (line ++ after) = afterWord line ++ after :=
  dropWhile_append_stop fun c hc => by
    rw [hafter c hc]
    rfl

lemma isTag_append : isTag (line ++ after) = isTag line := by
  rw [isTag, isTag, firstWord_append hafter, afterWord_append hafter]
  cases afterWord line with
  | cons c r => rfl
  | nil =>
    cases after with
    | nil => rfl
    | cons c r =>
      rw [hafter c rfl]
      rfl

end

/-! ### Lines in their place -/

/-- A line of a program, between what stands before it and what stands after it. -/
structure Place where
  before : Text
  line   : Text
  after  : Text
  newline_not_mem : '\n' ∉ line
  head_after      : ∀ c ∈ after.head?, c = '\n'

/-- The number of the line, counted from one. -/
def Place.number (p : Place) : Nat := p.before.count '\n' + 1

namespace Lexer

/-- The machine between what is read and what is left of a program, with the tokens so far. -/
structure At (read left : Text) (tokens : Array Token) (l : Lexer) : Prop where
  newlines : l.newlines = Scan.newlines (read ++ left)
  rest     : l.rest = left
  pos      : l.pos = read.length
  tokens   : l.tokens = tokens

/-- The machine on a whole program is where the machine on one of its lines is. A statement that is
begun has characters left, and a label has its colon. -/
structure OnLine (p : Place) (earlier : Array Token) (mode : Mode) (whole part : Lexer) : Prop where
  at_rest  : ∃ done, p.line = done ++ part.rest ∧
    At (p.before ++ done) (part.rest ++ p.after)
      (earlier ++ part.tokens.map (Token.onLine p.number)) whole
  line_eq  : mode ≠ .initial → whole.line = p.number
  rest_ne  : mode ≠ .initial → part.rest ≠ []
  isTag    : mode = .label → Scan.isTag part.rest

/-- A move on the whole program and the same move on one of its lines: they fail alike, or they go
on side by side. -/
def Agree (p : Place) (earlier : Array Token) (whole part : Outcome Lexer Failure (Option Mode)) :
    Prop :=
  match part.result with
  | .error e        => whole.result = .error e ∧ whole.state.line = p.number
  | .ok none        => False
  | .ok (some next) =>
    whole.result = .ok (some next) ∧ OnLine p earlier next whole.state part.state

namespace At

variable {read left passed : Text} {tokens : Array Token} {l : Lexer}

lemma advance (h : At read (passed ++ left) tokens l) :
    At (read ++ passed) left tokens (l.advance passed.length) where
  newlines := by rw [List.append_assoc]; exact h.newlines
  rest     := by rw [Lexer.advance, h.rest, List.drop_left]
  pos      := by rw [Lexer.advance, h.pos, List.length_append]
  tokens   := h.tokens

lemma lineAt_eq {before done : Text} (h : At (before ++ done) left tokens l) (hd : '\n' ∉ done) :
    lineAt l.newlines l.pos = before.count '\n' + 1 := by
  rw [h.newlines, h.pos, lineAt_newlines, List.append_assoc, List.length_append]
  exact lineOf_append hd left (Nat.le_refl _)

/-- Statements are added on the line that is begun. -/
lemma emit (h : At read left tokens l) (ss : List Statement) :
    At read left (tokens ++ (ss.map (Token.mk (read.count '\n' + 1))).toArray)
      ({ l with start := l.pos }.emit ss) where
  newlines := h.newlines
  rest     := h.rest
  pos      := h.pos
  tokens   := by
    have hline : ({ l with start := l.pos } : Lexer).line = read.count '\n' + 1 := by
      have hat : At (read ++ []) left tokens l := by rwa [List.append_nil]
      exact hat.lineAt_eq List.not_mem_nil
    rw [Lexer.emit, hline, h.tokens]

end At

lemma modeOf_ne_label (c : Char) : modeOf c ≠ .ok .label := by
  rw [modeOf]
  split_ifs <;> nofun

lemma readInitial_of_nil {l : Lexer} (h : l.skipBlanks.rest = []) :
    readInitial l = ⟨.ok none, l.skipBlanks, []⟩ := by
  simp only [readInitial, h]

lemma readInitial_of_cons {l : Lexer} {c : Char} {r : Text} (h : l.skipBlanks.rest = c :: r) :
    readInitial l = ⟨((modeOf c).mapError .fault).map some,
      { l.skipBlanks with start := l.skipBlanks.pos }, []⟩ := by
  rw [readInitial]
  dsimp only
  split
  · next hnil => cases hnil.symm.trans h
  · next hcons =>
    cases hcons.symm.trans h
    rfl

lemma lineLength_eq_length {t : Text} (h : '\n' ∉ t) : lineLength t = t.length := by
  have hafter : '\n' ∉ afterWord t := fun hmem => h ((List.dropWhile_suffix _).subset hmem)
  rw [lineLength, restOfLine_eq_self hafter, ← List.length_append, firstWord_append_afterWord]

/-- A line ends where the operands of its statement do. -/
lemma drop_lineLength {t : Text} (h : '\n' ∉ t) : t.drop (lineLength t) = [] := by
  rw [lineLength_eq_length h, List.drop_length]

namespace OnLine

variable {p : Place} {earlier : Array Token} {mode : Mode} {whole part : Lexer}

/-! ### What both machines read -/

lemma rest_eq (h : OnLine p earlier mode whole part) : whole.rest = part.rest ++ p.after := by
  obtain ⟨done, -, hat⟩ := h.at_rest
  exact hat.rest

lemma newline_not_mem (h : OnLine p earlier mode whole part) : '\n' ∉ part.rest := by
  obtain ⟨done, hdone, -⟩ := h.at_rest
  intro hmem
  exact p.newline_not_mem (hdone ▸ List.mem_append_right done hmem)

lemma lineAt_pos (h : OnLine p earlier mode whole part) :
    lineAt whole.newlines whole.pos = p.number := by
  obtain ⟨done, hdone, hat⟩ := h.at_rest
  refine hat.lineAt_eq fun hmem => ?_
  exact p.newline_not_mem (hdone ▸ List.mem_append_left part.rest hmem)

lemma firstWord_eq (h : OnLine p earlier mode whole part) :
    firstWord whole.rest = firstWord part.rest := by
  rw [h.rest_eq, firstWord_append p.head_after]

lemma isTag_eq (h : OnLine p earlier mode whole part) :
    Scan.isTag whole.rest = Scan.isTag part.rest := by
  rw [h.rest_eq, isTag_append p.head_after]

lemma newline_not_mem_afterWord (h : OnLine p earlier mode whole part) :
    '\n' ∉ afterWord part.rest := by
  intro hmem
  exact h.newline_not_mem ((List.dropWhile_sublist _).mem hmem)

lemma restOfLine_afterWord_part (h : OnLine p earlier mode whole part) :
    restOfLine (afterWord part.rest) = afterWord part.rest :=
  restOfLine_eq_self h.newline_not_mem_afterWord

lemma restOfLine_afterWord (h : OnLine p earlier mode whole part) :
    restOfLine (afterWord whole.rest) = restOfLine (afterWord part.rest) := by
  rw [h.restOfLine_afterWord_part, h.rest_eq, afterWord_append p.head_after]
  exact restOfLine_append p.head_after h.newline_not_mem_afterWord

lemma operandText_eq (h : OnLine p earlier mode whole part) :
    operandText (afterWord whole.rest) = operandText (afterWord part.rest) := by
  rw [operandText, operandText, h.restOfLine_afterWord]

lemma lineLength_eq (h : OnLine p earlier mode whole part) :
    lineLength whole.rest = lineLength part.rest := by
  rw [lineLength, lineLength, h.firstWord_eq, h.restOfLine_afterWord]

/-- A statement ends with its line. -/
lemma lineLength_le (h : OnLine p earlier mode whole part) :
    lineLength part.rest ≤ part.rest.length := by
  have hlen : lineLength part.rest = part.rest.length := by
    rw [lineLength, h.restOfLine_afterWord_part, ← List.length_append, firstWord_append_afterWord]
  exact Nat.le_of_eq hlen

/-! ### What both machines do -/

/-- Both machines take the same characters of the line. -/
lemma advance (h : OnLine p earlier mode whole part) {n : Nat} (hn : n ≤ part.rest.length) :
    OnLine p earlier .initial (whole.advance n) (part.advance n) where
  at_rest := by
    obtain ⟨done, hdone, hat⟩ := h.at_rest
    refine ⟨done ++ part.rest.take n, ?_, ?_⟩
    · rw [List.append_assoc, Lexer.advance, List.take_append_drop, hdone]
    · have hlen : (part.rest.take n).length = n := List.length_take_of_le hn
      rw [← List.take_append_drop n part.rest, List.append_assoc] at hat
      have := hat.advance
      rwa [hlen, List.append_assoc] at this
  line_eq := nofun
  rest_ne := nofun
  isTag   := nofun

/-- Both machines add the same statements. -/
lemma emit (h : OnLine p earlier mode whole part) (hm : mode ≠ .initial) (ss : List Statement) :
    OnLine p earlier mode (whole.emit ss) (part.emit ss) where
  at_rest := by
    obtain ⟨done, hdone, hat⟩ := h.at_rest
    refine ⟨done, hdone, hat.newlines, hat.rest, hat.pos, ?_⟩
    have hline : ss.map (Token.mk p.number) =
        (ss.map (Token.mk part.line)).map (Token.onLine p.number) := by
      rw [List.map_map]
      rfl
    simp only [Lexer.emit]
    rw [hat.tokens, h.line_eq hm, Array.map_append, List.map_toArray (l := ss.map _), hline,
      Array.append_assoc]
  line_eq := h.line_eq
  rest_ne := h.rest_ne
  isTag   := h.isTag

lemma readComment (h : OnLine p earlier .comment whole part) :
    Agree p earlier (readComment whole) (readComment part) := by
  obtain ⟨c, r, hr⟩ := List.exists_cons_of_ne_nil (h.rest_ne nofun)
  have hmem := h.newline_not_mem
  rw [hr, List.mem_cons, not_or] at hmem
  have hpart : restOfLine r = r := restOfLine_eq_self hmem.2
  have hwhole : restOfLine (r ++ p.after) = r := restOfLine_append p.head_after hmem.2
  rw [Lexer.readComment, Lexer.readComment]
  rw [h.rest_eq, hr, List.cons_append]
  dsimp only
  rw [hpart, hwhole]
  exact ⟨rfl, h.advance (by simp [hr])⟩

lemma readDirective (h : OnLine p earlier .directive whole part) :
    Agree p earlier (readDirective whole) (readDirective part) := by
  rw [Lexer.readDirective, Lexer.readDirective]
  dsimp only
  rw [h.firstWord_eq, h.operandText_eq, h.lineLength_eq]
  cases Directive.ofWord? (firstWord part.rest) with
  | none => exact ⟨rfl, h.line_eq nofun⟩
  | some d =>
    dsimp only
    cases d.statements (operandText (afterWord part.rest)) with
    | error e => exact ⟨rfl, h.line_eq nofun⟩
    | ok ss => exact ⟨rfl, (h.emit nofun ss).advance h.lineLength_le⟩

lemma readStatement (h : OnLine p earlier .statement whole part) :
    Agree p earlier (readStatement whole) (readStatement part) := by
  rw [Lexer.readStatement, Lexer.readStatement]
  rw [h.isTag_eq, h.firstWord_eq, h.operandText_eq, h.lineLength_eq]
  by_cases htag : Scan.isTag part.rest
  · rw [if_pos htag, if_pos htag]
    exact ⟨rfl, h.at_rest, fun _ => h.line_eq nofun, fun _ => h.rest_ne nofun, fun _ => htag⟩
  · rw [if_neg htag, if_neg htag]
    cases firstWord part.rest with
    | nil =>
      -- without a word both are refused for the first character
      obtain ⟨c, r, hr⟩ := List.exists_cons_of_ne_nil (h.rest_ne nofun)
      rw [h.rest_eq, hr]
      exact ⟨rfl, h.line_eq nofun⟩
    | cons c r =>
      dsimp only
      cases Instruction.candidates (c :: r) with
      | nil => exact ⟨rfl, h.line_eq nofun⟩
      | cons i is =>
        dsimp only
        cases firstCandidate (operandText (afterWord part.rest)) (i :: is) with
        | error e => exact ⟨rfl, h.line_eq nofun⟩
        | ok found =>
          cases found with
          | none => exact ⟨rfl, h.line_eq nofun⟩
          | some found => exact ⟨rfl, (h.emit nofun _).advance h.lineLength_le⟩

lemma readLabel (h : OnLine p earlier .label whole part) :
    Agree p earlier (readLabel whole) (readLabel part) := by
  unfold Lexer.readLabel
  dsimp only
  rw [h.firstWord_eq]
  by_cases hname : isIdentifier (firstWord part.rest)
  · rw [if_pos hname, if_pos hname]
    refine ⟨rfl, (h.emit nofun _).advance ?_⟩
    -- the colon after the name stands on the same line
    have htag := h.isTag rfl
    have hlen := congrArg List.length (firstWord_append_afterWord part.rest)
    cases hafter : afterWord part.rest with
    | nil => simp [Scan.isTag, hafter] at htag
    | cons c r =>
      rw [hafter, List.length_append, List.length_cons] at hlen
      show _ ≤ part.rest.length
      omega
  · rw [if_neg hname, if_neg hname]
    exact ⟨rfl, h.line_eq nofun⟩

lemma skipBlanks_eq (h : OnLine p earlier mode whole part) (hne : part.skipBlanks.rest ≠ []) :
    whole.skipBlanks = whole.advance (part.rest.takeWhile isBlank).length := by
  have hlen : (part.rest.takeWhile isBlank).length ≠ part.rest.length := by
    intro heq
    rw [skipBlanks, Lexer.advance, heq, List.drop_length] at hne
    exact hne rfl
  rw [skipBlanks, h.rest_eq, List.takeWhile_append, if_neg hlen]

lemma readInitial (h : OnLine p earlier .initial whole part) (hne : part.skipBlanks.rest ≠ []) :
    Agree p earlier (readInitial whole) (readInitial part) := by
  have hskip : OnLine p earlier .initial whole.skipBlanks part.skipBlanks := by
    rw [h.skipBlanks_eq hne]
    exact h.advance (List.takeWhile_prefix isBlank).length_le
  obtain ⟨c, r, hr⟩ := List.exists_cons_of_ne_nil hne
  rw [readInitial_of_cons hr, readInitial_of_cons (hskip.rest_eq.trans (by rw [hr]; rfl))]
  cases hmode : modeOf c with
  | error f => exact ⟨rfl, hskip.lineAt_pos⟩
  | ok mode =>
    obtain ⟨done, hdone, hat⟩ := hskip.at_rest
    refine ⟨rfl, ⟨done, hdone, hat.newlines, hat.rest, hat.pos, hat.tokens⟩, ?_, ?_, ?_⟩
    · exact fun _ => hskip.lineAt_pos
    · exact fun _ => hne
    · rintro rfl
      exact absurd hmode (modeOf_ne_label c)

/-- In the middle of a statement both machines move alike. -/
lemma step_of_ne_initial (h : OnLine p earlier mode whole part) (hm : mode ≠ .initial) :
    Agree p earlier (step mode whole) (step mode part) := by
  cases mode with
  | initial => exact absurd rfl hm
  | comment => exact h.readComment
  | directive => exact h.readDirective
  | statement => exact h.readStatement
  | label => exact h.readLabel

/-- Both machines move alike as long as there is something left of the line. -/
theorem step (h : OnLine p earlier mode whole part) (hmore : (step mode part).result ≠ .ok none) :
    Agree p earlier (step mode whole) (step mode part) := by
  by_cases hm : mode = .initial
  · subst hm
    refine h.readInitial fun hnil => hmore ?_
    rw [Lexer.step, readInitial_of_nil hnil]
  · exact h.step_of_ne_initial hm

/-- A line is finished at the beginning of a statement, with blanks left. -/
lemma of_step_eq_none (h : OnLine p earlier mode whole part)
    (hnone : (Lexer.step mode part).result = .ok none) :
    mode = .initial ∧ part.skipBlanks.rest = [] := by
  by_cases hm : mode = .initial
  · subst hm
    refine ⟨rfl, ?_⟩
    by_contra hne
    have hagree := h.readInitial hne
    unfold Agree at hagree
    rw [show (Lexer.readInitial part).result = .ok none from hnone] at hagree
    exact hagree
  · have hagree := h.step_of_ne_initial hm
    unfold Agree at hagree
    rw [hnone] at hagree
    exact hagree.elim

end OnLine

end Lexer

end MipsAsm
