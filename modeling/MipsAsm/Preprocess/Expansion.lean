import MipsAsm.Macro.Argument
import MipsAsm.Macro.Basic
import MipsAsm.Preprocess.Block
import MipsAsm.Preprocess.Settings

/-!
# Expansion

A text is expanded block by block. Macro calls and included files lead to texts that are expanded in
the same way, one level further down; the number of levels is bounded, and no file may include
itself. Only the macros that are known pass from one block to the next.
-/

namespace MipsAsm

/-- A step of the expansion, which may use and define macros. -/
abbrev Expansion := Run MacroTable Diagnostic

namespace Expansion

/-- Fail with a cause whose place is not known yet. -/
def fail {α : Type} (fault : Fault) : Expansion α := Run.throw { fault }

/-- Go on with a value, or fail with a cause. -/
def lift {α : Type} (x : Except Fault α) : Expansion α :=
  Run.ofExcept (x.mapError fun fault => { fault })

/-! ### Macro calls -/

/-- The arguments of a call of a macro, from the rest of the line. -/
def callArguments (m : Macro) (rest : Text) : Except Fault (List Text) :=
  match Macro.callText? rest with
  | none      => .error (.unbalancedCall m.name)
  | some text =>
    let arguments := Macro.splitArguments text
    if arguments.length = m.parameters.length then .ok arguments
    else .error (.argumentCount m.name m.parameters.length arguments.length)

/-- Expand a call, and process the result with `inner`. -/
def expandCall (inner : Text → Expansion Text) (m : Macro) (rest : Text) : Expansion Text := do
  let arguments ← lift (callArguments m rest)
  Run.log (.macroExpanded m.name arguments)
  inner (m.instantiate arguments)

/-- Expand the first macro call in the code of a line, to the end of the line. Without a call the
line stays as it is. -/
def expandLine (inner : Text → Expansion Text) (line : Text) : Expansion Text := do
  let macros ← Run.get
  match Scan.findInCode? (fun w => (macros.find? w).isSome) line with
  | none      => pure line
  | some site =>
    match macros.find? site.word with
    | none   => pure line
    | some m => do
      let expansion ← expandCall inner m site.after
      pure (site.before ++ expansion)

/-! ### Included files -/

/-- Characters of a path without quotes. -/
def isBarePathChar (c : Char) : Bool := !isBlank c && c ≠ '#' && c ≠ '"'

/-- The path that an `.include` names, and what follows it. -/
def readIncludeName (rest : Text) : Except Fault (Text × Text) :=
  match rest.trimLeft with
  | '"' :: r =>
    match r.dropWhile (· ≠ '"') with
    | []          => .error .unterminatedPath
    | _ :: suffix =>
      let name := r.takeWhile (· ≠ '"')
      if name = [] then .error .missingPath else .ok (name, suffix)
  | t        =>
    let name := t.takeWhile isBarePathChar
    if name = [] then .error .missingPath else .ok (name, t.dropWhile isBarePathChar)

/-- The paths at which an included file may be: beside the file that includes it, in the libraries,
and in the working directory. -/
def candidates (settings : Settings) (file : Option Path) (p : Path) : List Path :=
  (file.map fun f => f.parent.within p).toList ++ settings.libs.map (·.within p) ++ [p]

/-- The first of some paths at which there is something. -/
def firstExisting? (files : Files) : List Path → Expansion (Option Path)
  | []      => pure none
  | p :: ps => do
    Run.log (.consulted p.text)
    if files.contains p then pure (some p) else firstExisting? files ps

/-- The path of an included file: the first candidate that exists, or else the first one. -/
def locate (settings : Settings) (file : Option Path) (p : Path) : Expansion Path := do
  if p.isAbsolute then pure p
  else
    let paths := candidates settings file p
    let found ← firstExisting? settings.files paths
    pure (found.getD (paths.headD p))

/-- Process an included file with `inner`. The answer has what follows the path on its line. -/
def includeFile (settings : Settings) (inner : Frame → Text → Expansion Text) (frame : Frame)
    (rest : Text) : Expansion (Text × Text) := do
  let (name, suffix) ← lift (readIncludeName rest)
  let path ← locate settings frame.file (Path.ofText name)
  let place := settings.files.absolute path
  if frame.active.contains place then fail (.selfInclusion name)
  else do
    let content ← settings.files.readSource path settings.encoding
    let processed ←
      (inner ⟨some path, place :: frame.active⟩ content).mapError (·.within path.fileName)
    Run.log (.fileIncluded path.text processed.length)
    pure (processed, suffix)

/-! ### Macro definitions -/

/-- The macro that a definition makes, which begins on a line. -/
def readMacro (line : Nat) (header : Text) (body : Option MacroBody) :
    Except Fault (Macro × MacroBody) :=
  let (name, parameters) := Macro.readHeader (Scan.stripComment header)
  if ¬ Scan.isIdentifier name then .error (.badMacroName name)
  else if parameters.any (·.length = 1) then .error (.emptyParameter name)
  else
    match body with
    | none   => .error (.unclosedMacro name)
    | some b => .ok (⟨name, parameters, b.text, line⟩, b)

/-- Define a macro. The lines of the definition become empty. -/
def defineMacro (inner : Text → Expansion Text) (line : Nat) (header : Text)
    (body : Option MacroBody) : Expansion Text := do
  let (m, b) ← lift (readMacro line header body)
  Run.modify (·.insert m)
  Run.log (.macroDefined m.name m.parameters b.lines.length)
  let suffix ← expandLine inner b.stop.after
  pure (List.replicate b.height '\n' ++ suffix)

/-! ### Texts -/

/-- Process what a directive stands for: what takes its place, to the end of its last line. -/
def resolve (settings : Settings) (inner : Frame → Text → Expansion Text) (frame : Frame)
    (site : Scan.WordSite) : Option Directive → Expansion Text
  | some .includeFile => do
    let (content, rest) ← includeFile settings inner frame site.after
    let suffix ← expandLine (inner frame) rest
    pure (content ++ suffix)
  | some .eqv         => do
    -- the definition stays until the whole unit is expanded
    let _ ← lift (readDefinition site.after)
    pure (site.word ++ site.after)
  | _                 => fail .strayEndMacro

/-- What a directive reports. -/
def resolved (line : Nat) (site : Scan.WordSite) : Event :=
  .directiveResolved line (Text.lower (site.word.drop 1)) site.after.trimRight

/-- Process the block on a line. -/
def processBlock (settings : Settings) (inner : Frame → Text → Expansion Text) (frame : Frame)
    (line : Nat) : Block → Expansion Text
  | .plain text           => expandLine (inner frame) text
  | .directive d site     => do
    let before ← expandLine (inner frame) site.before
    Run.log (resolved line site)
    let replacement ← resolve settings inner frame site d
    pure (before ++ replacement)
  | .definition site body => do
    let before ← expandLine (inner frame) site.before
    Run.log (resolved line site)
    let replacement ← defineMacro (inner frame) line site.after body
    pure (before ++ replacement)

/-- Process blocks in order. A failure whose place is not known has the line of its block. -/
def processBlocks (settings : Settings) (inner : Frame → Text → Expansion Text) (frame : Frame) :
    List (Nat × Block) → Expansion (List Text)
  | []                   => pure []
  | (line, block) :: bs  => do
    let chunk ← (processBlock settings inner frame line block).mapError (·.atLine line)
    let chunks ← processBlocks settings inner frame bs
    pure (chunk :: chunks)

/-- Process a text with a number of levels left. -/
def processText (settings : Settings) : (levels : Nat) → Frame → Text → Expansion Text
  | 0,          _,     _    => fail (.tooDeep settings.maxDepth)
  | levels + 1, frame, text => do
    let chunks ← processBlocks settings (processText settings levels) frame (Block.ofText text)
    pure (Text.joinLines chunks)

/-- Expand a text: all that its blocks stand for, with the definitions of symbols in place. -/
def expand (settings : Settings) (text : Text) : Expansion Text :=
  processText settings settings.levels settings.outermost text

end Expansion

end MipsAsm
