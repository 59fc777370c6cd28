import MipsAsm.Preprocess.Session
import MipsAsm.Token.Lexer

/-!
# Assembly

From source text to tokens: the preprocessor first, the lexer on what it gives.
-/

namespace MipsAsm

/-- The tokens of a source text. -/
def assemble (settings : Settings) (text : Text) : Run Session Failure (List Token) := do
  let unit ← (Session.process settings text).mapError .diagnosed
  Run.log (.preprocessed text.length unit.length)
  let tokens ← Run.embed Lexer.tokens? (Lexer.ofText unit)
  Run.log (.tokenized tokens.length)
  pure tokens

/-- The tokens of a source file. -/
def assembleFile (settings : Settings) (path : Path) : Run Session Failure (List Token) := do
  let text ← (settings.files.readSource path settings.encoding).mapError .diagnosed
  assemble { settings with source := some path } text

end MipsAsm
