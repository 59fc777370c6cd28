import MipsAsm.Text.Basic

/-!
# Paths

A path is a root and the names on the way from it. Empty names and single dots mean nothing and are
left out; a double dot stays, because what it leads to depends on what exists.
-/

namespace MipsAsm

/-- Where a path begins. Exactly two slashes are a root of their own. -/
inductive Root where
  | relative
  | slash
  | doubleSlash
deriving DecidableEq, Repr

/-- A path. -/
structure Path where
  root  : Root
  names : List Text
deriving DecidableEq, Repr

namespace Path

/-- The parts of a text between slashes. -/
def splitSlashes : Text → List Text
  | []     => [[]]
  | c :: r => if c = '/' then [] :: splitSlashes r else Text.consFirst c (splitSlashes r)

/-- The root that a text begins with. -/
def rootOf : Text → Root
  | '/' :: '/' :: '/' :: _ => .slash
  | '/' :: '/' :: _        => .doubleSlash
  | '/' :: _               => .slash
  | _                      => .relative

/-- The path that a text spells. -/
def ofText (t : Text) : Path :=
  ⟨rootOf t, (splitSlashes t).filter fun name => name ≠ [] ∧ name ≠ ['.']⟩

/-- The path that a name gives, if it is not empty. -/
def ofName? (t : Text) : Option Path := if t = [] then none else some (ofText t)

/-- The spelling of a path. -/
def text (p : Path) : Text :=
  match p.root, p.names with
  | .relative, []       => ['.']
  | .relative, names    => Text.joined ['/'] names
  | .slash, names       => '/' :: Text.joined ['/'] names
  | .doubleSlash, names => '/' :: '/' :: Text.joined ['/'] names

/-- The path does not depend on a working directory. -/
def isAbsolute (p : Path) : Bool := p.root ≠ .relative

/-- The path without its last name. -/
def parent (p : Path) : Path := { p with names := p.names.dropLast }

/-- The last name of a path, if it has one. -/
def fileName (p : Path) : Text := p.names.getLastD []

/-- A path as seen from another. -/
def within (directory p : Path) : Path :=
  if p.isAbsolute then p else { directory with names := directory.names ++ p.names }

/-- Follow names from a place, up at a double dot. Above the top there is nothing to go up to. -/
def follow (place : List Text) : List Text → List Text
  | []            => place
  | name :: names =>
    follow (if name = ['.', '.'] then place.dropLast else place ++ [name]) names

/-- The names from the top to what a path means in a working directory. -/
def absolute (working : List Text) (p : Path) : List Text :=
  follow (if p.isAbsolute then [] else working) p.names

end Path

end MipsAsm
