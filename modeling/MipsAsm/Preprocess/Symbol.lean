import MipsAsm.Diagnostic
import MipsAsm.Journal.Run
import MipsAsm.Scan.Keyword
import MipsAsm.Text.Blank

/-!
# Symbols

An `.eqv` line gives a symbol a replacement for the whole unit: from the next line on until the
symbol is defined again, and before its first definition too. The replacement is expanded once, with
the symbols above it, when it is defined.
-/

namespace MipsAsm

/-- Symbols and their replacements. -/
abbrev SymbolTable := List (Text × Text)

namespace SymbolTable

/-- The table with a symbol, in place of an earlier replacement. -/
def insert (table : SymbolTable) (symbol replacement : Text) : SymbolTable :=
  (symbol, replacement) :: List.filter (·.1 ≠ symbol) table

/-- The table with a symbol, unless it has a replacement already. -/
def insertIfNew (table : SymbolTable) (symbol replacement : Text) : SymbolTable :=
  if (List.lookup symbol table).isSome then table else (symbol, replacement) :: table

/-- What stands for a word. -/
def replacement (table : SymbolTable) (word : Text) : Text := (List.lookup word table).getD word

end SymbolTable

/-- The spellings of the directives of the preprocessor. -/
def preprocessorKeywords : List Text :=
  [Directive.includeFile, .eqv, .beginMacro, .endMacro].map Directive.dotted

/-- The first directive of the preprocessor on a line. -/
def findDirective? (line : Text) : Option Scan.WordSite :=
  Scan.findKeyword? preprocessorKeywords line

/-- The first end of a macro on a line. -/
def findEndMacro? (line : Text) : Option Scan.WordSite :=
  Scan.findKeyword? [Directive.endMacro.dotted] line

/-- The symbol and the replacement that follow `.eqv`. -/
def readDefinition (rest : Text) : Except Fault (Text × Text) :=
  let t := (Scan.stripComment rest).trim
  let symbol := Scan.firstWord t
  let replacement := (Scan.afterWord t).trim
  if symbol = [] then .error .missingSymbol
  else if replacement = [] then .error (.missingReplacement symbol)
  else .ok (symbol, replacement)

/-! ### Units -/

/-- A line of an expanded unit: text, or a definition with the text in front of it. -/
inductive UnitLine where
  | text (line : Text)
  | definition (before symbol replacement : Text)
deriving DecidableEq, Repr

namespace UnitLine

/-- The definition that a line holds, if its first directive is `.eqv`. -/
def definitionSite? (line : Text) : Option Scan.WordSite :=
  (findDirective? line).filter fun site => Directive.ofWord? site.word = some .eqv

/-- Read the lines of a unit below symbols that are defined already. -/
def readAll {σ : Type} (above : SymbolTable) : List Text → Run σ Diagnostic (List UnitLine)
  | []            => pure []
  | line :: lines =>
    match definitionSite? line with
    | none      => do
      let rest ← readAll above lines
      pure (.text line :: rest)
    | some site => do
      let (symbol, raw) ← Run.ofExcept ((readDefinition site.after).mapError fun fault => { fault })
      -- all words are replaced, those in literals too
      let replacement := Scan.replaceWords above.replacement raw
      Run.log (.symbolDefined symbol replacement)
      let rest ← readAll (above.insert symbol replacement) lines
      pure (.definition site.before symbol replacement :: rest)

/-- The symbols of a unit with their first replacements. -/
def firstSymbols (lines : List UnitLine) : SymbolTable :=
  lines.foldl (fun table line =>
    match line with
    | .text _             => table
    | .definition _ s r   => table.insertIfNew s r) []

/-- The lines with their words replaced, and the symbols after the last of them. -/
def replaceAll (table : SymbolTable) : List UnitLine → List Text × SymbolTable
  | []                               => ([], table)
  | .text line :: lines              =>
    let (out, last) := replaceAll table lines
    (Scan.replaceInCode table.replacement line :: out, last)
  | .definition before s r :: lines  =>
    let (out, last) := replaceAll (table.insert s r) lines
    (Scan.replaceInCode table.replacement before :: out, last)

/-- The line holds a definition. -/
def isDefinition : UnitLine → Bool
  | .text _         => false
  | .definition ..  => true

end UnitLine

/-- Replace the symbols of a unit. The answer has the symbols too, if there are definitions. -/
def replaceSymbols {σ : Type} (text : Text) : Run σ Diagnostic (Text × Option SymbolTable) := do
  let lines ← UnitLine.readAll [] text.lines
  if lines.any UnitLine.isDefinition then
    let (out, last) := UnitLine.replaceAll (UnitLine.firstSymbols lines) lines
    pure (Text.joinLines out, some last)
  else
    pure (text, none)

end MipsAsm
