import MipsAsm.Diagnostic
import MipsAsm.Journal.Run
import MipsAsm.Source.Path

/-!
# Files

Preprocessing sees files through `Files`: what is at a path, and which paths mean the same place. A
`FileTree` is a file system in memory that gives such a view.
-/

namespace MipsAsm

/-- What may be at a path. -/
inductive Node where
  | directory
  | file (bytes : List UInt8)
deriving DecidableEq, Repr

/-- A view of a file system from a working directory. -/
structure Files where
  /-- What is at a path. -/
  node?    : Path → Option Node
  /-- The place that a path means; equal places are one file. -/
  absolute : Path → List Text

namespace Files

/-- The text of the file at a path. -/
def source (files : Files) (path : Path) (encoding : Codec) : Except Fault Text :=
  match files.node? path with
  | none               => .error (.noSuchFile path.text)
  | some .directory    => .error (.isDirectory path.text)
  | some (.file bytes) =>
    (encoding.decode bytes).mapError (.undecodable path.text encoding.name)

/-- Read the file at a path. -/
def readSource {σ : Type} (files : Files) (path : Path) (encoding : Codec) :
    Run σ Diagnostic Text := do
  Run.log (.consulted path.text)
  let text ← Run.ofExcept ((files.source path encoding).mapError fun fault => { fault })
  Run.log (.sourceRead path.text text.length)
  pure text

/-- There is something at a path. -/
def contains (files : Files) (path : Path) : Bool := (files.node? path).isSome

end Files

/-! ### File trees -/

/-- A file system: the nodes by the names that lead to them, and a working directory. The top, the
working directory and the directories above it always exist. -/
structure FileTree where
  working : List Text
  nodes   : List (List Text × Node)
deriving DecidableEq, Repr

namespace FileTree

/-- What is at a place. -/
def at? (t : FileTree) (place : List Text) : Option Node :=
  if place.isPrefixOf t.working then some .directory else t.nodes.lookup place

/-- Walk along names. Only a directory leads anywhere. -/
def walk? (t : FileTree) (place : List Text) : List Text → Option Node
  | []            => t.at? place
  | name :: names =>
    match t.at? place with
    | some .directory =>
      t.walk? (if name = ['.', '.'] then place.dropLast else place ++ [name]) names
    | _               => none

/-- What is at a path. -/
def node? (t : FileTree) (p : Path) : Option Node :=
  t.walk? (if p.isAbsolute then [] else t.working) p.names

/-- The view from the working directory. -/
def files (t : FileTree) : Files := ⟨t.node?, Path.absolute t.working⟩

/-- Put a node at a place. -/
def insert (t : FileTree) (place : List Text) (n : Node) : FileTree :=
  { t with nodes := (place, n) :: t.nodes.filter (·.1 ≠ place) }

/-- Make the directories on the way from a place along names. -/
def makeDirectories (t : FileTree) (place : List Text) : List Text → FileTree
  | []            => t
  | name :: names =>
    if name = ['.', '.'] then t.makeDirectories place.dropLast names
    else (t.insert (place ++ [name]) .directory).makeDirectories (place ++ [name]) names

/-- Make a directory, and those above it that are missing. -/
def addDirectory (t : FileTree) (p : Path) : FileTree := t.makeDirectories t.working p.names

/-- Write a file, and make the directories above it that are missing. -/
def write (t : FileTree) (p : Path) (bytes : List UInt8) : FileTree :=
  (t.addDirectory p.parent).insert (p.absolute t.working) (.file bytes)

/-- Remove what is at a path. -/
def erase (t : FileTree) (p : Path) : FileTree :=
  { t with nodes := t.nodes.filter fun n => !(p.absolute t.working).isPrefixOf n.1 }

end FileTree

end MipsAsm
