import MipsAsm.Number.Immediate
import MipsAsm.Scan.Identifier

/-!
# Operand lexer

Blanks, commas and line feeds separate operands and mean nothing else. At each other character the
first rule of `Rule.all` that matches gives the operand; its `extent` is the number of characters
that it takes, zero where it does not match.
-/

namespace MipsAsm

/-- The number of characters at the beginning of a text that belong to a class. -/
def runLength (p : Char → Bool) (t : Text) : Nat := (t.takeWhile p).length

/-! ### Registers -/

/-- The digits of a number that gives a register, after an optional `f`. -/
def Register.digits : Text → Text
  | 'f' :: t => t
  | t        => t

/-- The register that a text names: by a conventional name or by its index, with or without the
dollar sign and in any case. -/
def Register.read (text : Text) : Except Failure Register :=
  let name := Text.lower (match text with
    | '$' :: t => t
    | t        => t)
  match Register.named? name with
  | some r => .ok r
  | none   =>
    -- no conventional name: an index, behind an `f` or not
    let ds := Register.digits name
    if ds = [] ∨ ¬ ds.all isDigit then .error (.fault (.unknownRegister text))
    else if Number.digitLimit < ds.length then .error (.tooManyDigits ds.length)
    else
      match Register.ofIndex? (digitsValue 10 (Number.digitValues ds)) with
      | some r => .ok r
      | none   => .error (.fault (.unknownRegister text))

/-! ### Floating point numbers -/

/-- The extent of an exponent: a letter, a sign that may be missing, and digits. -/
def exponentExtent : Text → Nat
  | []     => 0
  | e :: t =>
    if e = 'e' ∨ e = 'E' then
      let s := if t.head? = some '+' ∨ t.head? = some '-' then 1 else 0
      let n := runLength isDigit (t.drop s)
      if n = 0 then 0 else 1 + s + n
    else 0

/-- The extent of a floating point number: digits with a fraction, an exponent or both. -/
def floatExtent (t : Text) : Nat :=
  let n := runLength isDigit t
  if n = 0 then 0
  else
    match t.drop n with
    | '.' :: r =>
      let f := runLength isDigit r
      n + 1 + f + exponentExtent (r.drop f)
    | r        =>
      let e := exponentExtent r
      if e = 0 then 0 else n + e

/-- The value of a floating point number. -/
def readFloat (t : Text) : Number.Double :=
  let whole := t.takeWhile isDigit
  let (fraction, rest) : Text × Text :=
    match t.dropWhile isDigit with
    | '.' :: r => (r.takeWhile isDigit, r.dropWhile isDigit)
    | r        => ([], r)
  let exponent : Int :=
    match rest with
    | []     => 0
    | _ :: r =>
      let (negative, ds) := Number.cutSign r
      Number.signed negative (digitsValue 10 (Number.digitValues ds))
  Number.Double.ofDecimal (digitsValue 10 (Number.digitValues (whole ++ fraction)))
    (exponent - fraction.length)

/-! ### Literals -/

/-- The number of characters before the double quote that closes a string. -/
def stringBody? : Text → Option Nat
  | []             => none
  | '"' :: _       => some 0
  | '\\' :: c :: t => if c = '\n' then none else (stringBody? t).map (· + 2)
  | c :: t         => if c = '\\' ∨ c = '\n' then none else (stringBody? t).map (· + 1)

/-- The extent of a character literal. -/
def charExtent : Text → Nat
  | '\'' :: '\\' :: c :: '\'' :: _ => if c = '\n' then 0 else 4
  | '\'' :: c :: '\'' :: _         => if c = '\'' ∨ c = '\\' ∨ c = '\n' then 0 else 3
  | _                              => 0

/-- What is written between the quotes of a literal. -/
def literalBody (t : Text) : Text := (t.drop 1).dropLast

/-! ### Rules -/

/-- A lexical rule. -/
inductive Rule where
  | register
  | float
  | number
  | label
  | string
  | char
  | leftParen
  | rightParen
  | plus
  | minus
deriving DecidableEq, Repr

namespace Rule

/-- The rules, in the order in which they are tried. -/
def all : List Rule :=
  -- numbers after floats, whose first digits they would take
  [register, float, number, label, string, char, leftParen, rightParen, plus, minus]

/-- The extent of one given character. -/
def charAt (c : Char) (t : Text) : Nat := if t.head? = some c then 1 else 0

/-- The number of characters that a rule takes from the beginning of a text. -/
def extent : Rule → Text → Nat
  | .register, '$' :: t =>
    let n := runLength isWordChar t
    if n = 0 then 0 else n + 1
  | .register, _        => 0
  | .float, t           => floatExtent t
  | .number, t          =>
    match t with
    | '0' :: x :: r =>
      -- without a hexadecimal digit behind the letter the zero is a number by itself
      let n := runLength isHexDigit r
      if (x = 'x' ∨ x = 'X') ∧ n ≠ 0 then n + 2 else runLength isDigit t
    | _             => runLength isDigit t
  | .label, c :: t      =>
    if Scan.isIdentifierStart c then runLength Scan.isIdentifierPart t + 1 else 0
  | .label, []          => 0
  | .string, '"' :: t   => ((stringBody? t).map (· + 2)).getD 0
  | .string, _          => 0
  | .char, t            => charExtent t
  | .leftParen, t       => charAt '(' t
  | .rightParen, t      => charAt ')' t
  | .plus, t            => charAt '+' t
  | .minus, t           => charAt '-' t

/-- The operand that a rule makes of the characters that it took. -/
def operand : Rule → Text → Except Failure Operand
  | .register, t   => (Register.read t).map .register
  | .float, t      => .ok (.float (readFloat t))
  | .number, t     => (Number.readImmediate t).map .number
  | .label, t      => .ok (.label t)
  | .string, t     => .ok (.string (literalBody t))
  | .char, t       => .ok (.char (literalBody t))
  | .leftParen, _  => .ok .leftParen
  | .rightParen, _ => .ok .rightParen
  | .plus, _       => .ok .plus
  | .minus, _      => .ok .minus

/-- The first rule that matches at the beginning of a text. -/
def first? (t : Text) : Option Rule := all.find? fun r => 0 < r.extent t

theorem extent_pos_of_first? {t : Text} {r : Rule} (h : first? t = some r) : 0 < r.extent t := by
  simpa using List.find?_some h

end Rule

/-- Characters between operands. -/
def isSpacing (c : Char) : Bool := " \t\r\x0c\x0b,\n".toList.contains c

private theorem length_drop_extent_lt {c : Char} {t : Text} {r : Rule}
    (h : Rule.first? (c :: t) = some r) :
    ((c :: t).drop (r.extent (c :: t))).length < (c :: t).length := by
  have := Rule.extent_pos_of_first? h
  simp only [List.length_drop, List.length_cons]
  omega

/-- The operands of a text that begins at `offset`. -/
def lexFrom (offset : Nat) (t : Text) : Except Failure (List Lexeme) :=
  match t with
  | []     => .ok []
  | c :: r =>
    if isSpacing c then lexFrom (offset + 1) r
    else
      match _h : Rule.first? (c :: r) with
      | none      => .error (.fault (.illegalCharacter c))
      | some rule => do
        let n := rule.extent (c :: r)
        let operand ← rule.operand ((c :: r).take n)
        let rest ← lexFrom (offset + n) ((c :: r).drop n)
        pure (⟨operand, (c :: r).take n, offset⟩ :: rest)
termination_by t.length
decreasing_by
  · simp
  · exact length_drop_extent_lt _h

/-- The operands of a text, each in its place. -/
def lexOperands (t : Text) : Except Failure (List Lexeme) := lexFrom 0 t

/-- The operands of a text. -/
def operands (t : Text) : Except Failure (List Operand) :=
  (lexOperands t).map (·.map Lexeme.operand)

end MipsAsm
