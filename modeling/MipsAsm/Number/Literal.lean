import MipsAsm.Text.Blank
import MipsAsm.Text.Digit
import MipsAsm.Text.Quoted

/-!
# Integer literals

Numbers on a command line: blanks around it, one sign, and digits of any script with single low
lines between them. A hexadecimal number may begin with `0x`. Decimal numbers are limited in length.
-/

namespace MipsAsm.Number

/-- The base of a literal. -/
inductive Radix where
  | decimal
  | hexadecimal
deriving DecidableEq, Repr

/-- The base as a number. -/
def Radix.base : Radix → Nat
  | .decimal     => 10
  | .hexadecimal => 16

/-- The value of a digit of the base. -/
def Radix.digit? (r : Radix) (c : Char) : Option Nat := (hexValue? c).filter (· < r.base)

/-- The most digits that a decimal number may have. -/
def digitLimit : Nat := 4300

/-- Why a text is no integer. -/
inductive LiteralFault where
  | notInBase (base : Nat) (text : Text)
  | tooManyDigits (count : Nat)
deriving DecidableEq, Repr

/-- The wording of the limit on digits. -/
def tooManyDigitsMessage (count : Nat) : String :=
  s!"Exceeds the limit ({digitLimit} digits) for integer string conversion: value has {count} " ++
    "digits; use sys.set_int_max_str_digits() to increase the limit"

/-- The wording of a fault. The text is quoted, and cut after two hundred characters. -/
def LiteralFault.message : LiteralFault → String
  | .notInBase base text =>
    s!"invalid literal for int() with base {base}: " ++ String.ofList (text.quoted.take 200)
  | .tooManyDigits count => tooManyDigitsMessage count

/-- The ASCII character that a character counts as: blanks are spaces, and digits of every script
are alike. -/
def plainChar (c : Char) : Char :=
  if c.toNat < 0x7F then c
  else if isBlank c then ' '
  else ((decimalValue? c).map Nat.digitChar).getD '?'

/-- The space and the controls from the tabulator to the carriage return. -/
def isAsciiBlank (c : Char) : Bool := c = ' ' || ('\t' ≤ c && c ≤ '\r')

/-- Cut a sign off. The answer is whether it is a minus. -/
def cutSign : Text → Bool × Text
  | '-' :: t => (true, t)
  | '+' :: t => (false, t)
  | t        => (false, t)

/-- Cut the mark of the base off, with a low line after it. -/
def cutMark : Radix → Text → Text
  | .hexadecimal, '0' :: x :: t =>
    if x = 'x' ∨ x = 'X' then
      match t with
      | '_' :: u => u
      | u        => u
    else '0' :: x :: t
  | _, t => t

/-- The values of digits with single low lines between them. -/
def groupedDigits? (r : Radix) : Text → Option (List Nat)
  | []            => none
  | [c]           => (r.digit? c).map ([·])
  | c :: '_' :: t => (r.digit? c).bind fun d => (groupedDigits? r t).map (d :: ·)
  | c :: c' :: t  => (r.digit? c).bind fun d => (groupedDigits? r (c' :: t)).map (d :: ·)

/-- Characters that may stand in a run of digits. -/
def isRunChar (r : Radix) (c : Char) : Bool := c = '_' || (r.digit? c).isSome

/-- The integer that a text denotes in a base. -/
def readInteger (r : Radix) (text : Text) : Except LiteralFault Int :=
  let (negative, t) := cutSign ((text.map plainChar).dropWhile isAsciiBlank)
  let t := cutMark r t
  match groupedDigits? r (t.takeWhile (isRunChar r)) with
  | none    => .error (.notInBase r.base text)
  | some ds =>
    if r = .decimal ∧ digitLimit < ds.length then .error (.tooManyDigits ds.length)
    else if (t.dropWhile (isRunChar r)).all isAsciiBlank then
      let n : Int := digitsValue r.base ds
      .ok (if negative then -n else n)
    else .error (.notInBase r.base text)

/-- The base of a text that does not say: sixteen if there is an `x` in it. -/
def guessRadix (text : Text) : Radix :=
  if text.contains 'x' || text.contains 'X' then .hexadecimal else .decimal

end MipsAsm.Number
