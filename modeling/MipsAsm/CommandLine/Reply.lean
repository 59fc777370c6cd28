import MipsAsm.Assembly
import MipsAsm.CommandLine.Usage

/-!
# Replies

What the program writes and how it ends, as a function of its arguments and the files that it sees.
-/

namespace MipsAsm.CommandLine

/-- What is written to the two outputs, and the exit code. -/
structure Reply where
  exitCode : UInt8
  output   : String
  errors   : String
deriving DecidableEq, Repr

/-- The line that begins the output. -/
def banner : String := "NeoMIPS - MIPS32 assembler front end\n"

/-- Lines, each with its end. -/
def unlines (lines : List String) : String := String.join (lines.map (· ++ "\n"))

/-- The name of the encoding that the options ask for. -/
def Options.encoding (o : Options) : Text := (if o.unicode then "UTF-8" else "utf-8").toList

/-- The least level of events that the options show. -/
def Options.threshold (o : Options) : Level := if o.verbose then .debug else .warning

/-- The directories that the options add, unless one was left out. -/
def Options.directories? (o : Options) : Option (List Path) :=
  o.libs.mapM fun lib => lib.map Path.ofText

/-- Why options lead to no tokens. -/
inductive Obstacle where
  | failure (failure : Failure)
  /-- A directory was left out. This is found when the source has been read. -/
  | missingDirectory
deriving DecidableEq, Repr

/-- The wording of an obstacle. -/
def Obstacle.message : Obstacle → String
  | .failure (.diagnosed d)     => d.report.text
  | .failure (.tooManyDigits n) => Number.tooManyDigitsMessage n
  | .missingDirectory           => "expected str, bytes or os.PathLike object, not list"

/-- Assemble the source that the options name. -/
def Options.assemble (o : Options) (files : Files) : Run Session Obstacle (List Token) :=
  match o.source with
  | none | some []     => Run.throw (.failure (.fault .noSource))
  | some (c :: source) => do
    Run.log (.assembling (c :: source) o.encoding)
    let path := Path.ofText (c :: source)
    match o.directories? with
    | some libs =>
      (assembleFile { files, libs, encoding := .named o.encoding } path).mapError .failure
    | none      => do
      let _ ← (files.readSource path (.named o.encoding)).mapError (.failure ∘ .diagnosed)
      Run.throw .missingDirectory

/-- The reply to options, with the events of the run. A diagnosed failure is reported; any other
obstacle leaves no reply. -/
def Options.reply (o : Options) (files : Files) : Except Obstacle Reply × List Event :=
  let outcome := (o.assemble files).run {}
  let log := unlines ((logOf o.threshold outcome.events).map Entry.text)
  let reply :=
    match outcome.result with
    | .ok tokens                       => .ok ⟨0, banner ++ unlines (tokens.map Token.text), log⟩
    | .error (.failure (.diagnosed d)) => .ok ⟨1, banner, log ++ d.report.text ++ "\n"⟩
    | .error obstacle                  => .error obstacle
  (reply, outcome.events)

/-- The reply to a command line that gives no options. -/
def Stop.reply : Stop → Reply
  | .help                 => ⟨0, helpText, ""⟩
  | .missingValue s       => ⟨2, "", misuse s "expected one argument"⟩
  | .ignoredValue s value =>
    ⟨2, "", misuse s s!"ignored explicit argument {value.quoted.str}"⟩
  | .badValue fault       => ⟨1, "", (Diagnostic.report { fault }).text ++ "\n"⟩

/-- The reply to a command line, with the events of the run. -/
def reply (files : Files) (arguments : List Text) : Except Obstacle Reply × List Event :=
  match readArguments arguments with
  | .error stop => (.ok stop.reply, [])
  | .ok options => options.reply files

end MipsAsm.CommandLine
