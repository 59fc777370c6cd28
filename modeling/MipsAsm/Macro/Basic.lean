import MipsAsm.Scan.Identifier
import MipsAsm.Scan.Word
import MipsAsm.Text.Blank

/-!
# Macros

A macro is a body with parameters. A use of a parameter is its name, not followed by a word
character; where several parameters occur, the longest is meant. Arguments take the place of all
uses at once.
-/

namespace MipsAsm

/-- A macro, with the line of its definition. -/
structure Macro where
  name       : Text
  parameters : List Text
  body       : Text
  line       : Nat
deriving DecidableEq, Repr

namespace Macro

/-! ### Bodies -/

/-- A part of a body: a character as it is, or the use of a parameter. -/
inductive Part where
  | char (c : Char)
  | use (parameter : Text)
deriving DecidableEq, Repr

/-- A parameter occurs at the beginning of a text. -/
def occurs (t parameter : Text) : Bool :=
  match Text.after? parameter t with
  | some (c :: _) => !isWordChar c
  | some []       => true
  | none          => false

/-- The longer of two parameters; the first of two equally long ones. -/
def longer : Option Text → Text → Option Text
  | none,   q => some q
  | some p, q => if p.length < q.length then some q else some p

/-- The longest parameter that occurs at the beginning of a text. -/
def parameterAt? (parameters : List Text) (t : Text) : Option Text :=
  (parameters.filter (occurs t)).foldl longer none

/-- The parts of a body after the characters that the last use takes. A parameter without characters
is used in front of each character that belongs to no word. -/
def partsFrom (parameters : List Text) : (skip : Nat) → Text → List Part
  | skip + 1, _ :: r => partsFrom parameters skip r
  | _,        []     =>
    match parameterAt? parameters [] with
    | some p => [.use p]
    | none   => []
  | 0,        c :: r =>
    match parameterAt? parameters (c :: r) with
    | some []       => .use [] :: .char c :: partsFrom parameters 0 r
    | some (d :: p) => .use (d :: p) :: partsFrom parameters p.length r
    | none          => .char c :: partsFrom parameters 0 r

/-- The parts of the body of a macro. -/
def parts (m : Macro) : List Part := partsFrom m.parameters 0 m.body

/-- The argument for a parameter; the last of several. -/
def argument? (m : Macro) (arguments : List Text) (parameter : Text) : Option Text :=
  (m.parameters.zip arguments).reverse.lookup parameter

/-- The body with arguments for parameters. A parameter without argument stays. -/
def instantiate (m : Macro) (arguments : List Text) : Text :=
  m.parts.flatMap fun
    | .char c => [c]
    | .use p  => (m.argument? arguments p).getD p

/-- The first parameter in use that has no argument. -/
def missing? (m : Macro) (arguments : List Text) : Option Text :=
  m.parts.findSome? fun
    | .char _ => none
    | .use p  => if (m.argument? arguments p).isNone then some p else none

/-! ### Headers -/

/-- Characters of the name of a macro in its header. -/
def isNameChar (c : Char) : Bool := !isBlank c && c ≠ '(' && c ≠ ','

/-- Characters of a parameter. -/
def isParameterChar (c : Char) : Bool := !isBlank c && c ≠ ',' && c ≠ '(' && c ≠ ')'

private theorem length_dropWhile_le (p : Char → Bool) (t : Text) :
    (t.dropWhile p).length ≤ t.length := (List.dropWhile_sublist p).length_le

/-- The parameters in a text: what begins with a percent or dollar sign. -/
def parametersIn : Text → List Text
  | []     => []
  | c :: r =>
    if c = '%' ∨ c = '$' then
      (c :: r.takeWhile isParameterChar) :: parametersIn (r.dropWhile isParameterChar)
    else parametersIn r
termination_by t => t.length
decreasing_by
  · exact Nat.lt_succ_of_le (length_dropWhile_le _ _)
  · simp

/-- The name and the parameters that a header gives. -/
def readHeader (header : Text) : Text × List Text :=
  let t := header.trimLeft
  (t.takeWhile isNameChar, parametersIn (t.dropWhile isNameChar))

end Macro

/-! ### Tables -/

/-- The macros that are known. -/
abbrev MacroTable := List Macro

namespace MacroTable

/-- The macro with a name. -/
def find? (table : MacroTable) (name : Text) : Option Macro := List.find? (·.name = name) table

/-- The table with one more macro, in place of one with the same name. -/
def insert (table : MacroTable) (m : Macro) : MacroTable := m :: List.filter (·.name ≠ m.name) table

end MacroTable

end MipsAsm
