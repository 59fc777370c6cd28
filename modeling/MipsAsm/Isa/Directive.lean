import MipsAsm.Text.Case

/-!
# Directives

The directives of the assembler. Four of them belong to the preprocessor, the others to the
statements that reach the lexer.
-/

namespace MipsAsm

/-- A directive. -/
inductive Directive where
  | align
  | ascii
  | asciiz
  | byte
  | data
  | double
  | endMacro
  | eqv
  | external
  | float
  | globl
  | half
  | includeFile
  | kdata
  | ktext
  | beginMacro
  | set
  | space
  | text
  | word
deriving DecidableEq, Repr

namespace Directive

/-- All directives. -/
def all : List Directive :=
  [align, ascii, asciiz, byte, data, double, endMacro, eqv, external, float, globl, half,
   includeFile, kdata, ktext, beginMacro, set, space, text, word]

/-- The word of a directive, without its dot. -/
def keyword : Directive → String
  | .align       => "align"
  | .ascii       => "ascii"
  | .asciiz      => "asciiz"
  | .byte        => "byte"
  | .data        => "data"
  | .double      => "double"
  | .endMacro    => "end_macro"
  | .eqv         => "eqv"
  | .external    => "extern"
  | .float       => "float"
  | .globl       => "globl"
  | .half        => "half"
  | .includeFile => "include"
  | .kdata       => "kdata"
  | .ktext       => "ktext"
  | .beginMacro  => "macro"
  | .set         => "set"
  | .space       => "space"
  | .text        => "text"
  | .word        => "word"

/-- The spelling of a directive in a program. -/
def spelling (d : Directive) : String := "." ++ d.keyword

/-- The characters of the spelling. -/
def dotted (d : Directive) : Text := '.' :: d.keyword.toList

/-- The name of a directive in listings: its word in capitals. -/
def name (d : Directive) : String := String.ofList (d.keyword.toList.map Char.toUpper)

/-- The directive that a word spells, in any case. -/
def ofWord? (word : Text) : Option Directive := all.find? (·.dotted = word.lower)

/-- The directives that the preprocessor resolves. -/
def ofPreprocessor : Directive → Bool
  | .includeFile | .eqv | .beginMacro | .endMacro => true
  | _                                             => false

theorem mem_all (d : Directive) : d ∈ all := by cases d <;> simp [all]

theorem eq_of_ofWord? {w : Text} {d : Directive} (h : ofWord? w = some d) :
    d.dotted = w.lower := by
  have := List.find?_some h
  simpa using this

/-- Each directive is found under its own spelling. -/
theorem ofWord?_dotted (d : Directive) : ofWord? d.dotted = some d := by cases d <;> decide

theorem ofWord?_eq_some_iff {w : Text} {d : Directive} :
    ofWord? w = some d ↔ d.dotted = w.lower := by
  refine ⟨eq_of_ofWord?, fun h => ?_⟩
  have hlower := eq_of_ofWord? (ofWord?_dotted d)
  rw [← ofWord?_dotted d, ofWord?, ofWord?, ← h, ← hlower]

end Directive

end MipsAsm
