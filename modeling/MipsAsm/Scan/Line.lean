import MipsAsm.Scan.Bisect
import MipsAsm.Text.Basic

/-!
# Line numbers

The line of a position is one more than the number of line feeds before it. `lineAt` finds it by
binary search among the offsets of the line feeds, which are collected once.
-/

namespace MipsAsm.Scan

/-- The line of a position, by counting. -/
def lineOf (t : Text) (pos : Nat) : Nat := (t.take pos).count '\n' + 1

/-- The offsets of the line feeds of a text that begins at `offset`. -/
def newlinesFrom (offset : Nat) : Text → List Nat
  | []     => []
  | c :: r =>
    if c = '\n' then offset :: newlinesFrom (offset + 1) r else newlinesFrom (offset + 1) r

/-- The offsets of the line feeds of a text, in order. -/
def newlines (t : Text) : Array Nat := (newlinesFrom 0 t).toArray

/-- The line of a position, from the offsets of the line feeds. -/
def lineAt (newlines : Array Nat) (pos : Nat) : Nat :=
  lowerBound newlines pos 0 newlines.size + 1

end MipsAsm.Scan
