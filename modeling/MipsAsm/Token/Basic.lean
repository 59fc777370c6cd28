import MipsAsm.Isa.Instruction
import MipsAsm.Operand.Match

/-!
# Tokens

An assembled program is a list of tokens. A token is a statement in its place: a label, a directive
with the data that it lays out, or an instruction with its parameters, and the line on which it
stands.
-/

namespace MipsAsm

/-- An argument of a directive. -/
inductive Argument where
  | int (value : Int)
  | float (value : Number.Double)
  | text (value : Text)
deriving DecidableEq, Repr

/-- What a program is made of. -/
inductive Statement where
  | label (name : Text)
  | directive (directive : Directive) (arguments : List Argument) (data : List UInt8)
  | instruction (mnemonic : Text) (instruction : Instruction) (parameters : Parameters)
deriving DecidableEq, Repr

/-- A statement and its line. -/
structure Token where
  line      : Nat
  statement : Statement
deriving DecidableEq, Repr

/-- An argument in a listing. -/
def Argument.shown : Argument → String
  | .int v   => toString v
  | .float x => x.text.str
  | .text t  => t.str

/-- A word in a listing: eight digits of base sixteen. -/
def wordText (n : Nat) : String := "0x" ++ String.ofList (hexDigits 8 n)

/-- Bytes in a listing. -/
def dataText (data : List UInt8) : String :=
  String.ofList (data.flatMap fun b => hexDigits 2 b.toNat)

/-- The parameters in a listing; those that are absent or zero are left out. -/
def Parameters.shown (p : Parameters) : List String :=
  (p.reg1.map fun r => s!"reg1={r.val}").toList ++
  (p.reg2.map fun r => s!"reg2={r.val}").toList ++
  (p.reg3.map fun r => s!"reg3={r.val}").toList ++
  (p.label.map fun l => s!"label={l.str}").toList ++
  (p.resolved.map fun i => s!"resolved={i}").toList ++
  (if p.immediate = 0 then [] else ["imm=" ++ wordText p.immediate]) ++
  (if p.offset = 0 then [] else ["offset=" ++ wordText p.offset])

namespace Statement

/-- The name that a statement defines. -/
def labelName? : Statement → Option Text
  | .label name => some name
  | _           => none

/-- A statement in a listing, without its line. -/
def text : Statement → String
  | .label name                 => s!"LABEL {name.str}"
  | .directive d arguments data =>
    s!"DIRECTIVE {d.spelling}" ++
      (if arguments.isEmpty then ""
        else " " ++ String.intercalate ", " (arguments.map Argument.shown)) ++
      (if data.isEmpty then "" else s!" [{dataText data}]")
  | .instruction _ i p          => String.intercalate " " (s!"INSTRUCTION {i.name}" :: p.shown)

/-- A statement in a listing whose lines may be numbered from anywhere. -/
def textOnLine (line : Int) (s : Statement) : String := s!"{line}: {s.text}"

end Statement

/-- A token in a listing. -/
def Token.text (t : Token) : String := t.statement.textOnLine t.line

end MipsAsm
