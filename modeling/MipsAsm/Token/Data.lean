import MipsAsm.Operand.Escape
import MipsAsm.Text.Utf8
import MipsAsm.Token.Basic

/-!
# Directive operands

The statements that a directive yields. Data directives lay their values out as bytes, the least
significant byte of a value first.
-/

namespace MipsAsm

/-- The last `count` bytes of a number, the least significant first. -/
def littleEndian : (count : Nat) → Nat → List UInt8
  | 0,         _ => []
  | count + 1, n => UInt8.ofNat (n % 256) :: littleEndian count (n / 256)

/-! ### Values -/

namespace Operand

/-- The sign that an operand is, if it is one: whether it is a minus. -/
def sign? : Operand → Option Bool
  | .plus  => some false
  | .minus => some true
  | _      => none

/-- Numbers of either kind. -/
def isNumeric : Operand → Bool
  | .number _ | .float _ => true
  | _                    => false

/-- Integers. -/
def isInteger : Operand → Bool
  | .number _ => true
  | _         => false

/-- Integers and characters. -/
def isIntegral : Operand → Bool
  | .number _ | .char _ => true
  | _                   => false

end Operand

/-- The value of a character literal. -/
def charValue (body : Text) : Except Fault Int :=
  match decodeEscapes body with
  | .error e => .error e
  | .ok [c]  => .ok c.toNat
  | .ok _    => .error (.notOneCharacter body)

/-- The value of an operand that a directive admits. -/
def Operand.value (d : Directive) (admits : Operand → Bool) (negative : Bool) (op : Operand) :
    Except Fault Argument :=
  if admits op then
    match op with
    | .number v  => .ok (.int (if negative then -v else v))
    | .float x   => .ok (.float (if negative then x.neg else x))
    | .char body => (charValue body).map fun v => .int (if negative then -v else v)
    | _          => .error (.unexpectedOperand d op)
  else .error (.unexpectedOperand d op)

/-- The values of operands, each of which may have a sign in front if it is a number. -/
def readValues (d : Directive) (admits : Operand → Bool) :
    List Operand → Except Fault (List Argument)
  | []        => .ok []
  | op :: ops =>
    match op.sign?, ops with
    | none, ops           => do
      let v ← op.value d admits false
      pure (v :: (← readValues d admits ops))
    | some _, []          => .error (.danglingSign d)
    | some minus, n :: ops =>
      if n.isNumeric then do
        let v ← n.value d admits minus
        pure (v :: (← readValues d admits ops))
      else .error (.danglingSign d)

/-- The values that the text of a directive gives. -/
def values (d : Directive) (admits : Operand → Bool) (text : Text) :
    Except Failure (List Argument) := do
  (readValues d admits (← operands text)).mapError .fault

/-- The integers among some arguments. -/
def integers (arguments : List Argument) : List Int :=
  arguments.filterMap fun
    | .int v => some v
    | _      => none

/-! ### Layouts -/

/-- The number of bytes of a value of an integer directive. -/
def Directive.integerBytes : Directive → Nat
  | .byte => 1
  | .half => 2
  | _     => 4

/-- The bytes of integers, each of which has to fit. -/
def integerData (bytes : Nat) : List Int → Except Fault (List UInt8)
  | []      => .ok []
  | v :: vs => do
    let w ← Number.toWord v (8 * bytes)
    pure (littleEndian bytes w ++ (← integerData bytes vs))

/-- The argument as a floating point number. -/
def Argument.toDouble : Argument → Number.Double
  | .int v   => Number.Double.ofInt v
  | .float x => x
  -- a directive that asks for numbers has no texts
  | .text _  => Number.Double.ofInt 0

/-- The bytes of a floating point number. -/
def floatData (d : Directive) (x : Number.Double) : List UInt8 :=
  if d = .float then littleEndian 4 x.singleBits else littleEndian 8 x.bits

/-- The bytes of a string, with a zero byte at the end of those that ask for it. -/
def stringData (d : Directive) (s : Text) : List UInt8 :=
  Utf8.encode s ++ if d = .asciiz then [0] else []

/-! ### Statements -/

/-- The one integer that a directive asks for. -/
def oneInteger (d : Directive) (text : Text) : Except Failure Int := do
  match integers (← values d Operand.isInteger text) with
  | [v] => pure v
  | _   => throw (.fault (.notOneInteger d))

/-- Integers as bytes. -/
def integerStatement (d : Directive) (text : Text) : Except Failure (List Statement) := do
  let arguments ← values d Operand.isIntegral text
  if arguments.isEmpty then throw (.fault (.missingValue d))
  let data ← (integerData d.integerBytes (integers arguments)).mapError .fault
  pure [.directive d arguments data]

/-- Floating point numbers as bytes. -/
def floatStatement (d : Directive) (text : Text) : Except Failure (List Statement) := do
  let arguments ← values d Operand.isNumeric text
  if arguments.isEmpty then throw (.fault (.missingValue d))
  let floats := arguments.map Argument.toDouble
  pure [.directive d (floats.map .float) (floats.flatMap (floatData d))]

/-- The bodies of operands that are all strings. -/
def stringBodies? : List Operand → Option (List Text)
  | []                  => some []
  | .string body :: ops => (stringBodies? ops).map (body :: ·)
  | _                   => none

/-- The names of operands that are all labels. -/
def labelNames? : List Operand → Option (List Text)
  | []                 => some []
  | .label name :: ops => (labelNames? ops).map (name :: ·)
  | _                  => none

/-- Strings as bytes. -/
def stringStatement (d : Directive) (text : Text) : Except Failure (List Statement) := do
  match stringBodies? (← operands text) with
  | none | some []      => throw (.fault (.notStrings d))
  | some (body :: rest) =>
    let strings ← ((body :: rest).mapM decodeEscapes).mapError .fault
    pure [.directive d (strings.map .text) (strings.flatMap (stringData d))]

/-- A power of two to align to. -/
def alignStatement (d : Directive) (text : Text) : Except Failure (List Statement) := do
  let n ← oneInteger d text
  if 0 ≤ n ∧ n ≤ 3 then pure [.directive d [.int n] []]
  else throw (.fault (.badAlignment n))

/-- Zero bytes. -/
def spaceStatement (d : Directive) (text : Text) : Except Failure (List Statement) := do
  let n ← oneInteger d text
  if n < 0 then throw (.fault (.badSize n))
  else pure [.directive d [.int n] (List.replicate n.toNat 0)]

/-- The beginning of a section, at an address that may be given. -/
def sectionStatement (d : Directive) (text : Text) : Except Failure (List Statement) := do
  let addresses := integers (← values d Operand.isInteger text)
  if 1 < addresses.length then throw (.fault (.tooManyAddresses d))
  let words ← (addresses.mapM wordOf).mapError .fault
  pure [.directive d (words.map fun w : Nat => .int w) []]

/-- Labels that other files may see. -/
def globalStatement (d : Directive) (text : Text) : Except Failure (List Statement) := do
  match labelNames? (← operands text) with
  | none | some []      => throw (.fault (.notLabels d))
  | some (name :: rest) => pure [.directive d ((name :: rest).map .text) []]

/-- A label of another file, with its size. -/
def externalStatement (d : Directive) (text : Text) : Except Failure (List Statement) := do
  match ← operands text with
  | [.label name, .number size] => pure [.directive d [.text name, .int size] []]
  | _                           => throw (.fault (.notLabelAndSize d))

/-- The statements that a directive yields, from the text of its operands. -/
def Directive.statements (d : Directive) (text : Text) : Except Failure (List Statement) :=
  match d with
  | .byte | .half | .word                                => integerStatement d text
  | .float | .double                                     => floatStatement d text
  | .ascii | .asciiz                                     => stringStatement d text
  | .align                                               => alignStatement d text
  | .space                                               => spaceStatement d text
  | .data | .kdata | .text | .ktext                      => sectionStatement d text
  | .globl                                               => globalStatement d text
  | .external                                            => externalStatement d text
  | .set                                                 => .ok []
  | .includeFile | .eqv | .beginMacro | .endMacro        =>
    .error (.fault (.leftToPreprocessor d))

end MipsAsm
