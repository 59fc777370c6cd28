import MipsAsm.Isa.Directive
import MipsAsm.Number.Literal
import MipsAsm.Operand.Basic
import MipsAsm.Source.Encoding

/-!
# Diagnostics

What may be wrong with a program, where it is wrong, and how that is told. A `Fault` is a cause, a
`Diagnostic` a cause with the place at which it was found, and a `Report` the words in which it
reaches the user.
-/

namespace MipsAsm

/-! ### Kinds -/

/-- The kind of a fault. -/
inductive FaultKind where
  | integerParsing
  | fileNotFound
  | fileRead
  | encodingTranslation
  | invalidSyntax
  | invalidInstruction
  | invalidDirective
  | invalidEscapeSequence
  | recursionLimit
deriving DecidableEq, Repr

namespace FaultKind

/-- All kinds. -/
def all : List FaultKind :=
  [integerParsing, fileNotFound, fileRead, encodingTranslation, invalidSyntax, invalidInstruction,
   invalidDirective, invalidEscapeSequence, recursionLimit]

/-- The name of a kind in reports. -/
def name : FaultKind → String
  | .integerParsing        => "IntegerParsing"
  | .fileNotFound          => "FileNotFound"
  | .fileRead              => "FileRead"
  | .encodingTranslation   => "EncodingTranslation"
  | .invalidSyntax         => "InvalidSyntax"
  | .invalidInstruction    => "InvalidInstruction"
  | .invalidDirective      => "InvalidDirective"
  | .invalidEscapeSequence => "InvalidEscapeSequence"
  | .recursionLimit        => "RecursionLimit"

/-- The kind with a name. -/
def named? (name : String) : Option FaultKind := all.find? (·.name = name)

end FaultKind

/-! ### Faults -/

/-- What is wrong. -/
inductive Fault where
  -- numbers
  | notANumber (text : Text) (cause : Number.LiteralFault)
  | tooManyHexDigits (text : Text)
  | immediateOutOfRange (text : Text)
  | notAnImmediate (text : Text)
  | valueOutOfRange (value : Int) (bits : Int)
  -- literals and operands
  | badEscape (char : Option Char)
  | notOneCharacter (body : Text)
  | unknownRegister (text : Text)
  | illegalCharacter (char : Char)
  -- operands of directives
  | danglingSign (directive : Directive)
  | unexpectedOperand (directive : Directive) (operand : Operand)
  | missingValue (directive : Directive)
  | notOneInteger (directive : Directive)
  | notStrings (directive : Directive)
  | tooManyAddresses (directive : Directive)
  | notLabels (directive : Directive)
  | notLabelAndSize (directive : Directive)
  | badAlignment (value : Int)
  | badSize (value : Int)
  | leftToPreprocessor (directive : Directive)
  -- statements
  | startsWithDigit
  | unknownDirective (word : Text)
  | unexpectedCharacter (char : Char)
  | unknownMnemonic (word : Text)
  | badOperands (word : Text) (operands : Text)
  | badLabel (word : Text)
  | duplicateLabel (name : Text)
  -- preprocessing
  | tooDeep (limit : Int)
  | strayEndMacro
  | unterminatedPath
  | missingPath
  | selfInclusion (name : Text)
  | missingSymbol
  | missingReplacement (symbol : Text)
  | badMacroName (name : Text)
  | emptyParameter (name : Text)
  | unclosedMacro (name : Text)
  | unbalancedCall (name : Text)
  | argumentCount (name : Text) (expected given : Nat)
  -- files
  | noSource
  | noSuchFile (path : Text)
  | isDirectory (path : Text)
  | undecodable (path encoding : Text) (cause : Encoding.DecodeFault)
deriving DecidableEq, Repr

namespace Fault

/-- The kind of a fault. What has no kind of its own is a fault of syntax. -/
def kind : Fault → FaultKind
  | .notANumber .. | .tooManyHexDigits .. | .immediateOutOfRange .. | .notAnImmediate ..
  | .valueOutOfRange .. | .badAlignment .. | .badSize .. => .integerParsing
  | .badEscape ..                                        => .invalidEscapeSequence
  | .leftToPreprocessor .. | .unknownDirective ..        => .invalidDirective
  | .badOperands ..                                      => .invalidInstruction
  | .tooDeep .. | .selfInclusion ..                      => .recursionLimit
  | .noSource | .noSuchFile ..                           => .fileNotFound
  | .isDirectory ..                                      => .fileRead
  | .undecodable ..                                      => .encodingTranslation
  | _                                                    => .invalidSyntax

/-- The wording of a fault. -/
def message : Fault → String
  | .notANumber text cause =>
    s!"Failed to read input as number: {text.str}. Inner exception: {cause.message}"
  | .tooManyHexDigits text        => s!"{text.str} has more than 8 hexadecimal digits"
  | .immediateOutOfRange text     => s!"{text.str} does not fit in 32 bits"
  | .notAnImmediate text          => s!"{text.str} is not a valid immediate"
  | .valueOutOfRange value bits   => s!"Value {value} does not fit in {bits} bits"
  | .badEscape char               =>
    "\\" ++ String.ofList char.toList ++ " is not a valid escape sequence"
  | .notOneCharacter body         => s!"'{body.str}' is not a single character"
  | .unknownRegister text         => s!"{text.str} is not a valid register"
  | .illegalCharacter char        => s!"Illegal character '{char}'"
  | .danglingSign d               => s!"{d.spelling}: sign must be followed by a number"
  | .unexpectedOperand d operand  => s!"{d.spelling}: unexpected operand {operand.shown}"
  | .missingValue d               => s!"{d.spelling}: expects at least one value"
  | .notOneInteger d              => s!"{d.spelling}: expects exactly one integer"
  | .notStrings d                 => s!"{d.spelling}: expects one or more string literals"
  | .tooManyAddresses d           => s!"{d.spelling}: expects at most one address"
  | .notLabels d                  => s!"{d.spelling}: expects one or more labels"
  | .notLabelAndSize d            => s!"{d.spelling}: expects a label and a size"
  | .badAlignment value           => s!".align expects 0..3, got {value}"
  | .badSize value                => s!".space expects a size >= 0, got {value}"
  | .leftToPreprocessor d         => s!"{d.spelling} must be resolved by the preprocessor"
  | .startsWithDigit              => "Statements cannot start with a number."
  | .unknownDirective word        => s!"{word.str} is not a valid directive."
  | .unexpectedCharacter char     => s!"Unexpected character '{char}'."
  | .unknownMnemonic word         => s!"{word.str} is not a valid instruction statement."
  | .badOperands word operands    => s!"Invalid operands for {word.str}: {operands.quoted.str}"
  | .badLabel word                => s!"{word.str} is not a valid label."
  | .duplicateLabel name          => s!"Label {name.str} is already defined."
  | .tooDeep limit                => s!"Include/macro nesting deeper than {limit} levels"
  | .strayEndMacro                => ".end_macro without a matching .macro"
  | .unterminatedPath             => "Unterminated .include path"
  | .missingPath                  => ".include expects a file name"
  | .selfInclusion name           => s!"{name.str} includes itself"
  | .missingSymbol                => ".eqv expects a symbol name"
  | .missingReplacement symbol    => s!".eqv {symbol.str} has no replacement"
  | .badMacroName name            => s!"Invalid macro name '{name.str}'"
  | .emptyParameter name          => s!"Empty parameter name in macro {name.str}"
  | .unclosedMacro name           => s!"Macro {name.str} has no .end_macro"
  | .unbalancedCall name          => s!"Unbalanced parentheses calling {name.str}"
  | .argumentCount name expected given =>
    s!"Macro {name.str} expects {expected} arguments, got {given}"
  | .noSource                     => "No source file given."
  | .noSuchFile path              => s!"File \"{path.str}\" does not exist."
  | .isDirectory path             =>
    s!"Could not read input file {path.str}: [Errno 21] Is a directory: {path.quoted.str}"
  | .undecodable path encoding cause =>
    s!"Failed to convert {path.str} from {encoding.str}: {cause.message}"

end Fault

/-! ### Places -/

/-- Where a fault was found. -/
inductive Location where
  | unknown
  | line (number : Nat)
  | inFile (name : Text) (line : Nat)
deriving DecidableEq, Repr

namespace Location

/-- The location in reports; an unknown one is empty. -/
def text : Location → String
  | .unknown          => ""
  | .line n           => toString n
  | .inFile name n    => s!"{name.str}:{n}"

/-- The location as seen from a program that includes the file. -/
def within (file : Text) : Location → Location
  | .line n => .inFile file n
  | l       => l

end Location

/-- A fault and its place. -/
structure Diagnostic where
  fault    : Fault
  location : Location := .unknown
deriving DecidableEq, Repr

namespace Diagnostic

/-- Fill in the line where the place is unknown. -/
def atLine (d : Diagnostic) (line : Nat) : Diagnostic :=
  match d.location with
  | .unknown => { d with location := .line line }
  | _        => d

/-- The diagnostic as seen from a program that includes the file. -/
def within (d : Diagnostic) (file : Text) : Diagnostic :=
  { d with location := d.location.within file }

end Diagnostic

/-! ### Reports -/

/-- A diagnostic in words. -/
structure Report where
  kind   : FaultKind
  place  : String
  reason : String
deriving DecidableEq, Repr

namespace Report

/-- Fill in the place where there is none. -/
def atPlace (r : Report) (place : String) : Report :=
  if r.place.isEmpty then { r with place } else r

/-- The report on one line. -/
def text (r : Report) : String :=
  let place := if r.place.isEmpty then "?" else r.place
  s!"line: {place}, what: {r.kind.name}, why: {r.reason}"

end Report

/-- The words for a diagnostic. -/
def Diagnostic.report (d : Diagnostic) : Report :=
  ⟨d.fault.kind, d.location.text, d.fault.message⟩

/-! ### Failures -/

/-- Why a program is not accepted: a diagnosed fault, or a decimal number of more digits than the
limit, which no line is told for. -/
inductive Failure where
  | diagnosed (diagnostic : Diagnostic)
  | tooManyDigits (count : Nat)
deriving DecidableEq, Repr

namespace Failure

/-- A fault whose place is not known yet. -/
def fault (f : Fault) : Failure := .diagnosed { fault := f }

/-- Fill in the line where the place is unknown. -/
def atLine (line : Nat) : Failure → Failure
  | .diagnosed d     => .diagnosed (d.atLine line)
  | .tooManyDigits n => .tooManyDigits n

end Failure

end MipsAsm
