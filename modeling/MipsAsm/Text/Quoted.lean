import MipsAsm.Text.Digit
import MipsAsm.Text.Printable

/-!
# Quoted texts

A text inside a message stands between quotes, on one line and in printable characters only. Single
quotes are the rule; a text with single quotes and no double quote stands between double ones.
-/

namespace MipsAsm.Text

/-- The quote around a text. -/
def quoteFor (t : Text) : Char :=
  if t.contains '\'' && !t.contains '"' then '"' else '\''

/-- One character between quotes. -/
def escaped (quote c : Char) : Text :=
  if c = quote ∨ c = '\\' then ['\\', c]
  else if c = '\n' then ['\\', 'n']
  else if c = '\r' then ['\\', 'r']
  else if c = '\t' then ['\\', 't']
  else if isPrintable c then [c]
  else if c.toNat ≤ 0xFF then '\\' :: 'x' :: hexDigits 2 c.toNat
  else if c.toNat ≤ 0xFFFF then '\\' :: 'u' :: hexDigits 4 c.toNat
  else '\\' :: 'U' :: hexDigits 8 c.toNat

/-- The text between quotes. -/
def quoted (t : Text) : Text :=
  t.quoteFor :: t.flatMap (escaped t.quoteFor) ++ [t.quoteFor]

end MipsAsm.Text
