import MipsAsm.Preprocess.Symbol

/-!
# Blocks

A text is a sequence of blocks: plain lines, lines with a directive of the preprocessor, and macro
definitions, which reach to the line that ends them. Each block knows the line on which it begins.
-/

namespace MipsAsm

/-- The body of a macro definition: its lines, and the line that ends it. -/
structure MacroBody where
  lines : List Text
  stop  : Scan.WordSite
deriving DecidableEq, Repr

namespace MacroBody

/-- The body that begins with the given lines, if it has an end. -/
def ofLines? : List Text → Option MacroBody
  | []      => none
  | l :: ls =>
    match findEndMacro? l with
    | some site => some ⟨[], site⟩
    | none      => (ofLines? ls).map fun b => { b with lines := l :: b.lines }

/-- The number of lines to the end of the body. -/
def height (b : MacroBody) : Nat := b.lines.length + 1

/-- The text of a body. What stands in front of the end belongs to it. -/
def text (b : MacroBody) : Text :=
  Text.joinLines (b.lines ++ if b.stop.before.trim = [] then [] else [b.stop.before])

end MacroBody

/-- A part of a text that is processed at once. -/
inductive Block where
  /-- A line without directive. -/
  | plain (line : Text)
  /-- A line with a directive other than `.macro`. -/
  | directive (directive : Option Directive) (site : Scan.WordSite)
  /-- A macro definition, whose body may lack an end. -/
  | definition (site : Scan.WordSite) (body : Option MacroBody)
deriving DecidableEq, Repr

namespace Block

/-- The block that begins with a line and the lines after it. -/
def ofLine (line : Text) (following : List Text) : Block :=
  match findDirective? line with
  | none      => .plain line
  | some site =>
    match Directive.ofWord? site.word with
    | some .beginMacro => .definition site (MacroBody.ofLines? following)
    | d                => .directive d site

/-- The number of lines that a block takes after its first. -/
def extraLines : Block → Nat
  | .definition _ (some body) => body.height
  | _                         => 0

/-- The blocks of lines, the first of which has a number, after the lines that the last block
takes. -/
def ofLinesFrom (number : Nat) : (skip : Nat) → List Text → List (Nat × Block)
  | _,        []      => []
  | skip + 1, _ :: ls => ofLinesFrom (number + 1) skip ls
  | 0,        l :: ls =>
    let b := ofLine l ls
    (number, b) :: ofLinesFrom (number + 1) b.extraLines ls

/-- The blocks of a text, with the lines on which they begin. -/
def ofText (t : Text) : List (Nat × Block) := ofLinesFrom 1 0 t.lines

end Block

end MipsAsm
