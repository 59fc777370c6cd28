import MipsAsm.Preprocess.Expansion

/-!
# Sessions

A text is expanded, and then the symbols of the whole unit are replaced. A `Session` keeps the
macros from one text to the next; the symbols are those of the last unit that defined any, and no
other unit uses them.
-/

namespace MipsAsm

/-- What preprocessing remembers. -/
structure Session where
  macros  : MacroTable := []
  symbols : SymbolTable := []
deriving DecidableEq, Repr

namespace Session

/-- Work on the macros of a session. -/
def onMacros {ε α : Type} (x : Run MacroTable ε α) : Run Session ε α :=
  Run.focus Session.macros (fun macros s => { s with macros }) x

/-- Preprocess a text: expand it and replace its symbols. -/
def process (settings : Settings) (text : Text) : Run Session Diagnostic Text := do
  let unit ← onMacros (Expansion.expand settings text)
  match ← replaceSymbols unit with
  | (out, none)         => pure out
  | (out, some symbols) => do
    Run.modify fun s => { s with symbols }
    pure out

/-- Preprocess a source file. -/
def processFile (settings : Settings) (path : Path) : Run Session Diagnostic Text := do
  let text ← settings.files.readSource path settings.encoding
  process { settings with source := some path } text

end Session

/-- Preprocess a text in a new session. -/
def preprocess (settings : Settings) (text : Text) : Except Diagnostic Text :=
  ((Session.process settings text).run {}).result

end MipsAsm
