import MipsAsm.Number.Immediate
import MipsAsm.Text.Blank

/-!
# Options

How a command line is read. Options begin with a hyphen; those of one letter may be joined, and the
last of them may be followed by its value. Everything that is no option, unknown ones included, is
taken for the source, and the last such argument wins. After `--` there are no options.
-/

namespace MipsAsm.CommandLine

/-- An option. -/
inductive Switch where
  | help
  | unicode
  | freq
  | interactive
  | maxMemory
  | memChunkSize
  | selfModifying
  | lib
  | verbose
deriving DecidableEq, Repr

namespace Switch

/-- All options. -/
def all : List Switch :=
  [help, unicode, freq, interactive, maxMemory, memChunkSize, selfModifying, lib, verbose]

/-- The letter of an option, if it has one. -/
def letter? : Switch → Option Char
  | .help          => some 'h'
  | .unicode       => some 'u'
  | .freq          => some 'f'
  | .interactive   => some 'i'
  | .maxMemory     => none
  | .memChunkSize  => none
  | .selfModifying => some 's'
  | .lib           => some 'l'
  | .verbose       => some 'v'

/-- The word of an option. -/
def word : Switch → String
  | .help          => "help"
  | .unicode       => "unicode"
  | .freq          => "freq"
  | .interactive   => "interactive"
  | .maxMemory     => "maxmemoryusage"
  | .memChunkSize  => "memchunksize"
  | .selfModifying => "selfmodifying"
  | .lib           => "lib"
  | .verbose       => "verbose"

/-- The option takes a value. -/
def takesValue : Switch → Bool
  | .freq | .maxMemory | .memChunkSize | .lib => true
  | _                                         => false

/-- The option as messages call it. -/
def name (s : Switch) : String :=
  match s.letter? with
  | some c => s!"-{c}/--{s.word}"
  | none   => s!"--{s.word}"

/-- The option of a letter. -/
def ofLetter? (c : Char) : Option Switch := all.find? (·.letter? = some c)

/-- The option that an argument spells, and whether it is spelled by its letter. -/
def ofSpelling? : Text → Option (Switch × Bool)
  | '-' :: '-' :: word => (all.find? (·.word.toList = word)).map (·, false)
  | ['-', c]           => (ofLetter? c).map (·, true)
  | _                  => none

end Switch

/-- What the command line asks for. Some options are for an interpreter, and only carried along. An
option whose value is left out on purpose has none. -/
structure Options where
  unicode       : Bool := false
  freq          : Option Int := some 0xFFFFFFFF
  interactive   : Bool := false
  maxMemory     : Option Int := some 0xFFFFFFFF
  memChunkSize  : Option Int := some 0xFFFF
  selfModifying : Bool := false
  libs          : List (Option Text) := []
  verbose       : Bool := false
  source        : Option Text := none
deriving DecidableEq, Repr

/-- Why a command line gives no options. -/
inductive Stop where
  /-- Help is asked for. -/
  | help
  /-- An option lacks its value. -/
  | missingValue (switch : Switch)
  /-- An option is given a value that it does not take. -/
  | ignoredValue (switch : Switch) (value : Text)
  /-- A value is not what it has to be. -/
  | badValue (fault : Fault)
deriving DecidableEq, Repr

/-! ### Arguments -/

/-- What an argument is by itself. -/
inductive Argument where
  | plain
  /-- It looks like an option, but there is no such option. -/
  | unknown
  /-- An option, by its letter or not, with a value that may be joined to it. -/
  | switch (switch : Switch) (byLetter : Bool) (value : Option Text)
deriving DecidableEq, Repr

namespace Argument

/-- Negative numbers, with or without a point. A line feed may follow. -/
def isNegativeNumber (t : Text) : Bool :=
  match t with
  | '-' :: r =>
    let r := if r.getLast? = some '\n' then r.dropLast else r
    match r.dropWhile isDecimal with
    | []        => r ≠ []
    | '.' :: ds => ds ≠ [] && ds.all isDecimal
    | _         => false
  | _        => false

/-- The option with which a joined argument begins: by its letter, the value right behind. -/
def joined? : Text → Option Argument
  | '-' :: c :: value =>
    if c = '-' then none else (Switch.ofLetter? c).map (.switch · true (some value))
  | _                 => none

/-- The option whose value stands behind an equals sign. -/
def assigned? (t : Text) : Option Argument :=
  match t.dropWhile (· ≠ '=') with
  | []         => none
  | _ :: value =>
    (Switch.ofSpelling? (t.takeWhile (· ≠ '='))).map fun (s, byLetter) =>
      .switch s byLetter (some value)

/-- The argument that a text is. -/
def ofText (t : Text) : Argument :=
  if t.head? ≠ some '-' then .plain
  else
    match Switch.ofSpelling? t with
    | some (s, byLetter) => .switch s byLetter none
    | none               =>
      if t.length = 1 then .plain
      else
        match (assigned? t).or (joined? t) with
        | some a => a
        | none   => if isNegativeNumber t || t.contains ' ' then .plain else .unknown

end Argument

/-! ### Joined options -/

/-- Options that are joined in one argument: those without value, and the last one. -/
structure Joined where
  before : List Switch
  last   : Switch
  value  : Option Text
deriving DecidableEq, Repr

/-- Take apart what is joined to an option. -/
def splitJoined (s : Switch) (byLetter : Bool) (value : Text) : Except Stop Joined :=
  if s.takesValue then .ok ⟨[], s, some value⟩
  else
    match value with
    | []     => .error (.ignoredValue s value)
    | c :: r =>
      match if byLetter then Switch.ofLetter? c else none with
      | none   => .error (.ignoredValue s value)
      | some n =>
        if r = [] then .ok ⟨[s], n, none⟩
        else (splitJoined n true r).map fun j => { j with before := s :: j.before }

/-! ### Effects -/

/-- The options after one without value. -/
def Options.apply (o : Options) : Switch → Except Stop Options
  | .help          => .error .help
  | .unicode       => .ok { o with unicode := true }
  | .interactive   => .ok { o with interactive := true }
  | .selfModifying => .ok { o with selfModifying := true }
  | .verbose       => .ok { o with verbose := true }
  | s              => .error (.missingValue s)

/-- The separator after which there are no options. -/
def endOfOptions : Text := ['-', '-']

/-- The value that a text gives. The separator, joined to an option, leaves its value out. -/
def valueOf (text : Text) : Option Text := if text = endOfOptions then none else some text

/-- The number that a value gives. -/
def numberValue (value : Option Text) (radix : Option Number.Radix) : Except Stop (Option Int) :=
  match value with
  | none   => .ok none
  | some t => ((Number.parseInteger t radix).map some).mapError .badValue

/-- The options after one with a value. -/
def Options.assign (o : Options) (value : Option Text) : Switch → Except Stop Options
  | .freq         => (numberValue value (some .decimal)).map fun n => { o with freq := n }
  | .maxMemory    => (numberValue value none).map fun n => { o with maxMemory := n }
  | .memChunkSize => (numberValue value none).map fun n => { o with memChunkSize := n }
  | .lib          => .ok { o with libs := o.libs ++ [value] }
  | s             => .error (.ignoredValue s (value.getD endOfOptions))

/-- The options after some without value. -/
def Options.applyAll (o : Options) : List Switch → Except Stop Options
  | []      => .ok o
  | s :: ss => do (← o.apply s).applyAll ss

/-- Read arguments, with the options so far. -/
def readFrom (o : Options) : List Text → Except Stop Options
  | []        => .ok o
  | t :: rest =>
    if t = endOfOptions then .ok { o with source := some (rest.getLastD t) }
    else
      match Argument.ofText t with
      | .plain | .unknown          => readFrom { o with source := some t } rest
      | .switch s byLetter value   =>
        match value.elim (.ok ⟨[], s, none⟩) (splitJoined s byLetter) with
        | .error stop => .error stop
        | .ok joined  =>
          if joined.last.takesValue then
            match joined.value, rest with
            | some v, rest    => do
              let o ← (← o.applyAll joined.before).assign (valueOf v) joined.last
              readFrom o rest
            | none, []        => .error (.missingValue joined.last)
            | none, v :: rest =>
              if v ≠ endOfOptions ∧ Argument.ofText v = .plain then do
                let o ← (← o.applyAll joined.before).assign (some v) joined.last
                readFrom o rest
              else .error (.missingValue joined.last)
          else do
            let o ← o.applyAll (joined.before ++ [joined.last])
            readFrom o rest

/-- The options that a command line gives. -/
def readArguments (arguments : List Text) : Except Stop Options := readFrom {} arguments

end MipsAsm.CommandLine
