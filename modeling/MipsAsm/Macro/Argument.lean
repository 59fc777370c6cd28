import MipsAsm.Scan.Context
import MipsAsm.Text.Blank

/-!
# Macro arguments

The arguments of a call stand between commas, or between blanks where there is no comma. Only those
in code and outside parentheses count.
-/

namespace MipsAsm.Macro

/-- The depth of parentheses after a character of code. -/
def depthAfter (depth : Int) (c : Char) : Int :=
  if c = '(' then depth + 1 else if c = ')' then depth - 1 else depth

/-- Cut a text that is read from a state and at a depth at the separators in code and outside
parentheses. -/
def cutFrom (separates : Char → Bool) : Scan.State → (depth : Int) → Text → List Text
  | _, _,     []     => [[]]
  | s, depth, c :: r =>
    if s.contextOf c = .code then
      if depth = 0 ∧ separates c then [] :: cutFrom separates (s.next c) depth r
      else Text.consFirst c (cutFrom separates (s.next c) (depthAfter depth c) r)
    else Text.consFirst c (cutFrom separates (s.next c) depth r)

/-- Cut a text at the separators in code and outside parentheses. -/
def cut (separates : Char → Bool) (t : Text) : List Text := cutFrom separates .code 0 t

/-- The arguments in a text. -/
def splitArguments (text : Text) : List Text :=
  let t := text.trim
  let byComma := (cut (· = ',') t).map Text.trim
  -- a single part means that there is no comma to cut at
  if 1 < byComma.length then byComma
  else ((cut isBlank t).map Text.trim).filter (· ≠ [])

/-- What stands before the last occurrence of a character. -/
def beforeLast? (c : Char) : Text → Option Text
  | []     => none
  | d :: r =>
    match beforeLast? c r with
    | some t => some (d :: t)
    | none   => if d = c then some [] else none

/-- The text of the arguments of a call, from the rest of its line: what is between the parentheses,
if there are any, or all that is no comment. There is none if the parentheses stay open. -/
def callText? (rest : Text) : Option Text :=
  match (Scan.stripComment rest).trim with
  | '(' :: t => beforeLast? ')' t
  | t        => some t

end MipsAsm.Macro
