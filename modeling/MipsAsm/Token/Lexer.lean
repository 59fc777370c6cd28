import MipsAsm.Journal.Run
import MipsAsm.Scan.Line
import MipsAsm.Scan.Word
import MipsAsm.Token.Data

/-!
# Statement lexer

A machine with five modes reads a preprocessed program and collects its tokens. `Lexer.step` makes
one move; a program is finished when no mode is next. The machine halts because each move either
takes characters or leads to a mode of lower rank: `Lexer.measure_step_lt`.
-/

namespace MipsAsm

/-- What the machine is about to read. -/
inductive Mode where
  /-- The beginning of a statement, blanks in front of it. -/
  | initial
  | comment
  | directive
  /-- A statement that begins with a word. -/
  | statement
  | label
deriving DecidableEq, Repr

/-- A mode gives way to modes of lower rank without taking a character. -/
def Mode.rank : Mode → Nat
  | .initial   => 2
  | .statement => 1
  | _          => 0

/-- The machine: what is left of the program, where that begins, where the last statement began, and
the tokens so far. -/
structure Lexer where
  newlines : Array Nat
  rest     : Text
  pos      : Nat := 0
  start    : Nat := 0
  tokens   : Array Token := #[]
deriving DecidableEq, Repr

namespace Lexer

/-- The machine at the beginning of a program. -/
def ofText (t : Text) : Lexer := { newlines := Scan.newlines t, rest := t }

/-- The line of the last statement that was begun. -/
def line (l : Lexer) : Nat := Scan.lineAt l.newlines l.start

/-- The machine some characters further on. -/
def advance (l : Lexer) (n : Nat) : Lexer := { l with rest := l.rest.drop n, pos := l.pos + n }

/-- The machine with more tokens: statements on its line. -/
def emit (l : Lexer) (ss : List Statement) : Lexer :=
  { l with tokens := l.tokens ++ (ss.map (Token.mk l.line)).toArray }

/-- The machine at the next character that is no blank. -/
def skipBlanks (l : Lexer) : Lexer := l.advance (l.rest.takeWhile isBlank).length

/-- The operands of a statement whose word is read: the rest of the line without its comment. -/
def operandText (afterWord : Text) : Text := Scan.stripComment (Scan.restOfLine afterWord)

/-- The number of characters to the end of the line after the word at the beginning. -/
def lineLength (t : Text) : Nat :=
  (Scan.firstWord t).length + (Scan.restOfLine (Scan.afterWord t)).length

/-! ### Moves -/

/-- A move: the mode that comes next, if any. -/
abbrev Move := Run Lexer Failure (Option Mode)

/-- The mode in which a statement is read, by its first character. -/
def modeOf (c : Char) : Except Fault Mode :=
  if c = '#' then .ok .comment
  else if c = '.' then .ok .directive
  else if isDigit c then .error .startsWithDigit
  else .ok .statement

private theorem eq_sign_of_modeOf {c : Char} (h : modeOf c = .ok .comment) : c = '#' := by
  unfold modeOf at h
  split at h
  · assumption
  · split at h
    · cases h
    · split at h <;> cases h

/-- Skip blanks and tell statements apart by their first character. -/
def readInitial : Move := fun l =>
  let l := l.skipBlanks
  match l.rest with
  | []     => ⟨.ok none, l, []⟩
  | c :: _ => ⟨((modeOf c).mapError .fault).map some, { l with start := l.pos }, []⟩

/-- Skip a comment. -/
def readComment : Move := fun l =>
  match l.rest with
  -- this does not happen, since the mode begins at a sign
  | []     => ⟨.ok none, l, []⟩
  | _ :: r => ⟨.ok (some .initial), l.advance ((Scan.restOfLine r).length + 1), []⟩

/-- A comment is begun at its sign. -/
theorem head?_of_readInitial {l : Lexer} (h : (readInitial l).result = .ok (some .comment)) :
    (readInitial l).state.rest.head? = some '#' := by
  revert h
  unfold readInitial
  dsimp only
  split
  · intro h
    cases h
  · rename_i c _ hr
    intro h
    rcases hm : modeOf c with e | mode
    · rw [hm] at h
      cases h
    · rw [hm] at h
      cases h
      rw [hr, eq_sign_of_modeOf hm]
      rfl

/-- The search for the end of the line may begin at the sign of the comment, which is no line
feed. -/
theorem readComment_of_sign {l : Lexer} (h : l.rest.head? = some '#') :
    readComment l = ⟨.ok (some .initial), l.advance (Scan.restOfLine l.rest).length, []⟩ := by
  obtain ⟨r, hr⟩ := List.head?_eq_some_iff.mp h
  have hsign : Scan.restOfLine ('#' :: r) = '#' :: Scan.restOfLine r := by
    simp [Scan.restOfLine]
  rw [readComment, hr, hsign, List.length_cons]

/-- A comment is skipped from its sign to the end of the line. -/
theorem readComment_of_readInitial {l : Lexer}
    (h : (readInitial l).result = .ok (some .comment)) :
    readComment (readInitial l).state =
      ⟨.ok (some .initial),
        (readInitial l).state.advance (Scan.restOfLine (readInitial l).state.rest).length, []⟩ :=
  readComment_of_sign (head?_of_readInitial h)

/-- What a directive reports. -/
def directiveEvents (d : Directive) (line : Nat) (operands : Text) : List Event :=
  .directiveRead line d operands ::
    if d = .set then [.settingIgnored line operands.trim] else []

/-- Read a directive with its operands. -/
def readDirective : Move := fun l =>
  let word := Scan.firstWord l.rest
  match Directive.ofWord? word with
  | none   => ⟨.error (.fault (.unknownDirective word)), l, []⟩
  | some d =>
    let operands := operandText (Scan.afterWord l.rest)
    let events := directiveEvents d l.line operands
    match d.statements operands with
    | .error e => ⟨.error e, l, events⟩
    | .ok ss   => ⟨.ok (some .initial), (l.emit ss).advance (lineLength l.rest), events⟩

/-- The first candidate that admits the operands, with their parameters. -/
def firstCandidate (operands : Text) :
    List Instruction → Except Failure (Option (Instruction × Parameters))
  | []      => .ok none
  | i :: is => do
    match ← matchOperands operands i.shapes with
    | some p => pure (some (i.refine p.shape, p))
    | none   => firstCandidate operands is

/-- Read a label or an instruction with its operands. -/
def readStatement : Move := fun l =>
  if Scan.isTag l.rest then ⟨.ok (some .label), l, []⟩
  else
    match Scan.firstWord l.rest with
    -- at a separator no word begins
    | []     => ⟨.error (.fault (.unexpectedCharacter (l.rest.headD '\x00'))), l, []⟩
    | c :: r =>
      let word : Text := c :: r
      match Instruction.candidates word with
      | []         => ⟨.error (.fault (.unknownMnemonic word)), l, []⟩
      | candidates =>
        let operands := operandText (Scan.afterWord l.rest)
        match firstCandidate operands candidates with
        | .error e         => ⟨.error e, l, []⟩
        | .ok none         => ⟨.error (.fault (.badOperands word operands.trim)), l, []⟩
        | .ok (some (i, p)) =>
          ⟨.ok (some .initial),
            (l.emit [.instruction word i p]).advance (lineLength l.rest),
            [.operandsMatched operands p.shape, .instructionRead l.line i p.shape]⟩

/-- Read a label and its colon. -/
def readLabel : Move := fun l =>
  let word := Scan.firstWord l.rest
  if Scan.isIdentifier word then
    ⟨.ok (some .initial), (l.emit [.label word]).advance (word.length + 1), []⟩
  else ⟨.error (.fault (.badLabel word)), l, []⟩

/-- One move of the machine. -/
def step : Mode → Move
  | .initial   => readInitial
  | .comment   => readComment
  | .directive => readDirective
  | .statement => readStatement
  | .label     => readLabel

/-! ### Progress -/

/-- What each move makes smaller. -/
def measure (mode : Mode) (l : Lexer) : Nat := 3 * l.rest.length + mode.rank

private theorem length_advance (l : Lexer) (n : Nat) :
    (l.advance n).rest.length = l.rest.length - n := by simp [advance]

private theorem measure_advance_lt {l l' : Lexer} {n : Nat} (mode : Mode)
    (h : l'.rest = l.rest) (hn : 0 < n) (hl : 0 < l.rest.length) :
    measure .initial (l'.advance n) < measure mode l := by
  simp only [measure, length_advance, h, Mode.rank]
  omega

private theorem firstWord_length_le (t : Text) : (Scan.firstWord t).length ≤ t.length := by
  have := congrArg List.length (Scan.firstWord_append_afterWord t)
  simp only [List.length_append] at this
  omega

private theorem rank_lt_of_modeOf {c : Char} {mode : Mode} (h : modeOf c = .ok mode) :
    mode.rank < 2 := by
  unfold modeOf at h
  split at h
  · cases h; decide
  · split at h
    · cases h; decide
    · split at h <;> cases h
      decide

private theorem firstWord_pos_of_directive {t : Text} {d : Directive}
    (h : Directive.ofWord? (Scan.firstWord t) = some d) : 0 < (Scan.firstWord t).length := by
  have hd := Directive.eq_of_ofWord? h
  rcases hw : Scan.firstWord t with _ | ⟨c, r⟩
  · rw [hw] at hd
    simp [Directive.dotted, Text.lower] at hd
  · simp

private theorem measure_readInitial_lt {next : Mode} {l : Lexer}
    (h : (readInitial l).result = .ok (some next)) :
    measure next (readInitial l).state < measure .initial l := by
  have hle : l.skipBlanks.rest.length ≤ l.rest.length := by simp [skipBlanks, length_advance]
  revert h
  unfold readInitial
  dsimp only
  split
  · intro h
    cases h
  · rename_i c _ hr
    intro h
    rcases hm : modeOf c with e | mode
    · rw [hm] at h
      cases h
    · have hrank := rank_lt_of_modeOf hm
      rw [hm] at h
      cases h
      show 3 * l.skipBlanks.rest.length + next.rank < 3 * l.rest.length + 2
      omega

private theorem measure_readComment_lt {next : Mode} {l : Lexer}
    (h : (readComment l).result = .ok (some next)) :
    measure next (readComment l).state < measure .comment l := by
  revert h
  unfold readComment
  split
  · intro h
    cases h
  · rename_i hr
    intro h
    cases h
    exact measure_advance_lt _ rfl (by omega) (by simp [hr])

private theorem measure_readDirective_lt {next : Mode} {l : Lexer}
    (h : (readDirective l).result = .ok (some next)) :
    measure next (readDirective l).state < measure .directive l := by
  revert h
  unfold readDirective
  dsimp only
  split
  · intro h
    cases h
  · rename_i hd
    have hpos := firstWord_pos_of_directive hd
    have hle := firstWord_length_le l.rest
    split <;> intro h <;> cases h
    exact measure_advance_lt _ rfl (by simp only [lineLength]; omega) (by omega)

private theorem measure_readStatement_lt {next : Mode} {l : Lexer}
    (h : (readStatement l).result = .ok (some next)) :
    measure next (readStatement l).state < measure .statement l := by
  revert h
  unfold readStatement
  split
  · intro h
    cases h
    simp [measure, Mode.rank]
  · split
    · intro h
      cases h
    · rename_i c r hw
      have hle := firstWord_length_le l.rest
      rw [hw, List.length_cons] at hle
      dsimp only
      split
      · intro h
        cases h
      · split <;> intro h <;> cases h
        exact measure_advance_lt _ rfl (by simp only [lineLength, hw, List.length_cons]; omega)
          (by omega)

private theorem measure_readLabel_lt {next : Mode} {l : Lexer}
    (h : (readLabel l).result = .ok (some next)) :
    measure next (readLabel l).state < measure .label l := by
  revert h
  unfold readLabel
  dsimp only
  split
  · rename_i hi
    have hle := firstWord_length_le l.rest
    have hpos : 0 < (Scan.firstWord l.rest).length := by
      rcases hw : Scan.firstWord l.rest with _ | ⟨c, r⟩
      · rw [hw] at hi
        exact absurd hi (by simp [Scan.isIdentifier])
      · simp
    intro h
    cases h
    exact measure_advance_lt _ rfl (by omega) (by omega)
  · intro h
    cases h

/-- A move takes characters or leads to a mode of lower rank. -/
theorem measure_step_lt {mode next : Mode} {l : Lexer}
    (h : (step mode l).result = .ok (some next)) :
    measure next (step mode l).state < measure mode l := by
  cases mode with
  | initial   => exact measure_readInitial_lt h
  | comment   => exact measure_readComment_lt h
  | directive => exact measure_readDirective_lt h
  | statement => exact measure_readStatement_lt h
  | label     => exact measure_readLabel_lt h

/-! ### Runs -/

/-- Move until no mode is next. -/
def runFrom (mode : Mode) (l : Lexer) : Outcome Lexer Failure Unit :=
  let o := step mode l
  match _h : o.result with
  | .error e        => ⟨.error e, o.state, o.events⟩
  | .ok none        => ⟨.ok (), o.state, o.events⟩
  | .ok (some next) =>
    let o' := runFrom next o.state
    ⟨o'.result, o'.state, o.events ++ o'.events⟩
termination_by measure mode l
decreasing_by exact measure_step_lt _h

end Lexer

/-! ### Labels -/

namespace Token

/-- The first label whose name occurs before it, in tokens after labels of the given names. -/
def duplicateLabel? (seen : List Text) : List Token → Option (Nat × Text)
  | []                     => none
  | ⟨n, .label name⟩ :: ts =>
    if seen.contains name then some (n, name) else duplicateLabel? (name :: seen) ts
  | _ :: ts                => duplicateLabel? seen ts

/-- The index of the token that defines a name. -/
def labelIndex? (ts : List Token) (name : Text) : Option Nat :=
  ts.findIdx? (·.statement.labelName? = some name)

/-- A token with its label resolved in a program. -/
def resolve (program : List Token) : Token → Token
  | ⟨n, .instruction w i p⟩ =>
    ⟨n, .instruction w i { p with resolved := p.label.bind (labelIndex? program) }⟩
  | t                       => t

/-- A program with its labels resolved. No name may be defined twice. -/
def resolveLabels (ts : List Token) : Except Diagnostic (List Token) :=
  match duplicateLabel? [] ts with
  | some (n, name) => .error ⟨.duplicateLabel name, .line n⟩
  | none           => .ok (ts.map (resolve ts))

end Token

namespace Lexer

/-- Read the program and resolve its labels. A diagnosed failure has the line of the last statement
that was begun, and leaves no tokens behind. -/
def tokens? : Run Lexer Failure (List Token) := fun l =>
  let o := runFrom .initial l
  match o.result with
  | .error (.tooManyDigits n) => ⟨.error (.tooManyDigits n), o.state, o.events⟩
  | .error (.diagnosed d)     => discard o.state o.events d
  | .ok ()                    =>
    match Token.resolveLabels o.state.tokens.toList with
    | .error d => discard o.state o.events d
    | .ok ts   => ⟨.ok ts, { o.state with tokens := ts.toArray }, o.events⟩
where
  discard (l : Lexer) (events : List Event) (d : Diagnostic) :
      Outcome Lexer Failure (List Token) :=
    ⟨.error (.diagnosed (d.atLine l.line)), { l with tokens := #[] }, events⟩

end Lexer

/-- The tokens of a preprocessed program. -/
def tokenize (t : Text) : Except Failure (List Token) := (Lexer.tokens? (Lexer.ofText t)).result

end MipsAsm
