import MipsAsm.Text.Basic

/-!
# Lower case

Keywords, mnemonics and register names are ASCII words compared without regard to case. The Kelvin
sign is the one letter beyond ASCII whose lower case is an ASCII letter; the capital I with a dot
becomes an `i` and a combining dot, which no keyword contains. Any other letter beyond ASCII stays
as it is, because it differs from every ASCII letter in either case.
-/

namespace MipsAsm

/-- Lower case of a character, as far as a comparison with an ASCII word can see. -/
def lowerChar (c : Char) : Text :=
  if 'A' ≤ c ∧ c ≤ 'Z' then [Char.ofNat (c.toNat + 32)]
  else if c = '\u212a' then ['k']
  else if c = '\u0130' then ['i', '\u0307']
  else [c]

/-- Lower case of a text, as far as a comparison with an ASCII word can see. -/
def Text.lower (t : Text) : Text := t.flatMap lowerChar

end MipsAsm
