import MipsAsm.Isa.Shape
import MipsAsm.Number.Word
import MipsAsm.Operand.Lexer

/-!
# Matching operands

The shapes that a mnemonic admits are tried one after the other. The first whose slots take all
operands gives the parameters of the instruction. A number that fits no word is an error even if the
shape would not have matched.
-/

namespace MipsAsm

/-- The parameters of an instruction. Numbers are words; a label is resolved to the index of the
token that defines it. -/
structure Parameters where
  shape     : Shape
  reg1      : Option Register := none
  reg2      : Option Register := none
  reg3      : Option Register := none
  label     : Option Text := none
  resolved  : Option Nat := none
  immediate : Nat := 0
  offset    : Nat := 0
deriving DecidableEq, Repr

/-- The word of a number. -/
def wordOf (v : Int) : Except Fault Nat := Number.toWord v Number.wordSize

/-- Take a number with an explicit sign. -/
def takeSigned : List Operand → Except Fault (Option (Nat × List Operand))
  | .plus :: .number v :: ops  => do pure (some (← wordOf v, ops))
  | .minus :: .number v :: ops => do pure (some (← wordOf (-v), ops))
  | _                          => .ok none

/-- Take a number, with or without a sign. -/
def takeNumber : List Operand → Except Fault (Option (Nat × List Operand))
  | .number v :: ops => do pure (some (← wordOf v, ops))
  | ops              => takeSigned ops

namespace Slot

/-- Fill a slot from the front of the operands. The answer has the operands that are left. -/
def take : Slot → Parameters → List Operand → Except Fault (Option (Parameters × List Operand))
  | .first, p, .register r :: ops  => .ok (some ({ p with reg1 := some r }, ops))
  | .second, p, .register r :: ops => .ok (some ({ p with reg2 := some r }, ops))
  | .third, p, .register r :: ops  => .ok (some ({ p with reg3 := some r }, ops))
  | .immediate, p, ops             => do
    pure ((← takeNumber ops).map fun (w, ops) => ({ p with immediate := w }, ops))
  | .offset, p, ops                => do
    pure ((← takeNumber ops).map fun (w, ops) => ({ p with offset := w }, ops))
  | .label, p, .label l :: ops     => .ok (some ({ p with label := some l }, ops))
  | .labelImmediate, p, .label l :: ops => do
    pure ((← takeSigned ops).map fun (w, ops) => ({ p with label := some l, immediate := w }, ops))
  | .labelOffset, p, .label l :: ops => do
    pure ((← takeSigned ops).map fun (w, ops) => ({ p with label := some l, offset := w }, ops))
  | .base, p, .leftParen :: .register r :: .rightParen :: ops =>
    .ok (some ({ p with reg2 := some r }, ops))
  | _, _, _                        => .ok none

/-- Fill slots one after the other. All operands have to be taken. -/
def fill : List Slot → Parameters → List Operand → Except Fault (Option Parameters)
  | [], p, []       => .ok (some p)
  | [], _, _ :: _   => .ok none
  | s :: ss, p, ops => do
    match ← s.take p ops with
    | none          => .ok none
    | some (p, ops) => fill ss p ops

end Slot

/-- The parameters that operands give in a shape. -/
def Shape.parameters? (s : Shape) (ops : List Operand) : Except Fault (Option Parameters) :=
  Slot.fill s.slots { shape := s } ops

/-- The parameters that operands give in the first shape that they fit. -/
def firstFit (ops : List Operand) : List Shape → Except Fault (Option Parameters)
  | []      => .ok none
  | s :: ss => do
    -- a failure ends the search, also where later slots would not have matched
    match ← s.parameters? ops with
    | none   => firstFit ops ss
    | some p => pure (some p)

/-- Match the text of operands with the shapes that are admitted, tried in the given order. -/
def matchInOrder (order : List Shape) (text : Text) (admitted : List Shape) :
    Except Failure (Option Parameters) := do
  let ops ← operands text
  (firstFit ops (order.filter admitted.contains)).mapError .fault

/-- Match the text of operands with the shapes that are admitted. -/
def matchOperands (text : Text) (admitted : List Shape) : Except Failure (Option Parameters) :=
  matchInOrder Shape.priority text admitted

end MipsAsm
