import MipsAsm.Isa.Directive
import MipsAsm.Isa.Instruction
import MipsAsm.Text.Quoted

/-!
# Events

What an assembly run reports about its progress. An event is shown from a level on, under the name
of the part of the program that it comes from.
-/

namespace MipsAsm

/-- How much an event matters. -/
inductive Level where
  | debug
  | info
  | warning
deriving DecidableEq, Repr

namespace Level

/-- The name of a level. -/
def name : Level → String
  | .debug   => "DEBUG"
  | .info    => "INFO"
  | .warning => "WARNING"

/-- The rank of a level. -/
def rank : Level → Nat
  | .debug   => 0
  | .info    => 1
  | .warning => 2

end Level

/-- Something that happened in a run. -/
inductive Event where
  /-- It mattered what is at a path. -/
  | consulted (path : Text)
  | assembling (source encoding : Text)
  | sourceRead (path : Text) (characters : Nat)
  | directiveResolved (line : Nat) (keyword rest : Text)
  | fileIncluded (path : Text) (characters : Nat)
  | symbolDefined (symbol replacement : Text)
  | macroDefined (name : Text) (parameters : List Text) (lines : Nat)
  | macroExpanded (name : Text) (arguments : List Text)
  | preprocessed (before after : Nat)
  | directiveRead (line : Nat) (directive : Directive) (operands : Text)
  | settingIgnored (line : Nat) (operands : Text)
  | operandsMatched (operands : Text) (shape : Shape)
  | instructionRead (line : Nat) (instruction : Instruction) (shape : Shape)
  | tokenized (tokens : Nat)
deriving DecidableEq, Repr

/-- An event as a log shows it. -/
structure Entry where
  level   : Level
  origin  : String
  message : String
deriving DecidableEq, Repr

/-- An entry on one line. -/
def Entry.text (e : Entry) : String := s!"{e.level.name} {e.origin}: {e.message}"

/-- Texts in a row, with commas between them. -/
def commaSeparated (ts : List Text) : String := String.intercalate ", " (ts.map Text.str)

/-- The entry of an event; what is only consulted is not shown. -/
def Event.entry? : Event → Option Entry
  | .consulted _ => none
  | .assembling source encoding =>
    some ⟨.info, "neomips.controller.execution", s!"assembling {source.str} ({encoding.str})"⟩
  | .sourceRead path n =>
    some ⟨.debug, "neomips.utils", s!"read {n} characters from {path.str}"⟩
  | .directiveResolved line keyword rest =>
    preprocessing s!"line {line}: .{keyword.str}{rest.str}"
  | .fileIncluded path n => preprocessing s!"included {path.str} ({n} characters)"
  | .symbolDefined symbol replacement =>
    preprocessing s!".eqv {symbol.str} -> {replacement.str}"
  | .macroDefined name parameters lines =>
    preprocessing s!"macro {name.str}({commaSeparated parameters}), {lines} body lines"
  | .macroExpanded name arguments =>
    preprocessing s!"expanding {name.str}({commaSeparated arguments})"
  | .preprocessed before after => assembly s!"preprocessed {before} -> {after} characters"
  | .directiveRead line d operands =>
    lexing s!"line {line}: directive {d.spelling} {operands.str}"
  | .settingIgnored line operands =>
    some ⟨.warning, "neomips.model.ensamblador.directives",
      s!"line {line}: .set {operands.str} ignored"⟩
  | .operandsMatched operands shape =>
    some ⟨.debug, "neomips.model.ensamblador.operands",
      s!"operands {operands.quoted.str} matched {shape.name}"⟩
  | .instructionRead line i shape => lexing s!"line {line}: {i.name} Archetype.{shape.name}"
  | .tokenized n => assembly s!"{n} tokens"
where
  preprocessing (message : String) : Option Entry :=
    some ⟨.debug, "neomips.model.preprocesador.preprocessor", message⟩
  assembly (message : String) : Option Entry :=
    some ⟨.debug, "neomips.model.pipeline", message⟩
  lexing (message : String) : Option Entry :=
    some ⟨.debug, "neomips.model.ensamblador.lexer", message⟩

/-- The entries of a level and above. -/
def logOf (threshold : Level) (events : List Event) : List Entry :=
  (events.filterMap Event.entry?).filter fun e => threshold.rank ≤ e.level.rank

end MipsAsm
