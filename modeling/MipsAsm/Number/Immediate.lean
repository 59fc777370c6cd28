import MipsAsm.Diagnostic

/-!
# Immediates

Numbers in a program: signed decimal numbers that fit in a word with or without sign, and `0x` with
at most eight hexadecimal digits. `parseInteger` reads the numbers of a command line.
-/

namespace MipsAsm.Number

-- powers are the ones that numbers have, not those of a monoid
attribute [local instance(2000)] instPowNat

/-- The most hexadecimal digits of an immediate. -/
def maxHexDigits : Nat := 8

/-- The digits after the mark of a hexadecimal number. -/
def hexDigits? : Text → Option Text
  | '0' :: x :: ds =>
    if (x = 'x' ∨ x = 'X') ∧ ds ≠ [] ∧ ds.all isHexDigit then some ds else none
  | _              => none

/-- The values of digits in either base. -/
def digitValues (ds : Text) : List Nat := ds.map fun c => (hexValue? c).getD 0

/-- A number with a sign. -/
def signed (negative : Bool) (n : Nat) : Int := if negative then -n else n

/-- The value of an immediate. -/
def readImmediate (text : Text) : Except Failure Int :=
  let (negative, t) := cutSign text
  match hexDigits? t with
  | some ds =>
    if maxHexDigits < ds.length then .error (.fault (.tooManyHexDigits text))
    else .ok (signed negative (digitsValue 16 (digitValues ds)))
  | none    =>
    if t = [] ∨ ¬ t.all isDigit then .error (.fault (.notAnImmediate text))
    else if digitLimit < t.length then .error (.tooManyDigits t.length)
    else
      let v := signed negative (digitsValue 10 (digitValues t))
      if -2 ^ (31 : Nat) ≤ v ∧ v < 2 ^ (32 : Nat) then .ok v
      else .error (.fault (.immediateOutOfRange text))

/-- The value of a number of the command line; without a base, an `x` in it tells. -/
def parseInteger (text : Text) (radix : Option Radix) : Except Fault Int :=
  (readInteger (radix.getD (guessRadix text)) text).mapError (.notANumber text)

end MipsAsm.Number
