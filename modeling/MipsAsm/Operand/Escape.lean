import MipsAsm.Diagnostic

/-!
# Escapes

A backslash in a literal stands with the next character for one character.
-/

namespace MipsAsm

/-- The character that a backslash and the given character stand for. -/
def escapeValue? : Char → Option Char
  | 'n'  => some '\n'
  | 't'  => some '\t'
  | 'r'  => some '\r'
  | '0'  => some '\x00'
  | '\\' => some '\\'
  | '"'  => some '"'
  | '\'' => some '\''
  | _    => none

/-- The characters of a literal, from what is written between its quotes. -/
def decodeEscapes : Text → Except Fault Text
  | []             => .ok []
  | ['\\']         => .error (.badEscape none)
  | '\\' :: e :: t =>
    match escapeValue? e with
    | none   => .error (.badEscape (some e))
    | some c => (decodeEscapes t).map (c :: ·)
  | c :: t         => (decodeEscapes t).map (c :: ·)

end MipsAsm
