import MipsAsm.Isa.Register
import MipsAsm.Number.Shortest
import MipsAsm.Text.Quoted

/-!
# Operands

What follows a mnemonic or a directive is a list of operands. Signs are operands of their own, so
that `-5` and `label-5` read the same way.
-/

namespace MipsAsm

/-- An operand. Strings and characters are kept without their quotes and with their escapes. -/
inductive Operand where
  | register (index : Register)
  | float (value : Number.Double)
  | number (value : Int)
  | label (name : Text)
  | string (body : Text)
  | char (body : Text)
  | leftParen
  | rightParen
  | plus
  | minus
deriving DecidableEq, Repr

/-- An operand in its place: what is written there, and at which offset. -/
structure Lexeme where
  operand : Operand
  text    : Text
  offset  : Nat
deriving DecidableEq, Repr

namespace Operand

/-- The value of an operand in a message: numbers as they are, all else quoted. -/
def shown : Operand → String
  | .register r  => toString r.val
  | .float x     => x.text.str
  | .number v    => toString v
  | .label name  => name.quoted.str
  | .string body => body.quoted.str
  | .char body   => body.quoted.str
  | .leftParen   => "'('"
  | .rightParen  => "')'"
  | .plus        => "'+'"
  | .minus       => "'-'"

end Operand

end MipsAsm
