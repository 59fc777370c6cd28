import MipsAsm.CommandLine.Reply

/-!
# The program

The outermost layer: a reply depends on files, of which only a snapshot is known. As long as a run
consults other paths, these are looked up and the reply is computed anew.
-/

namespace MipsAsm

/-- What is known of the file system: the nodes at some paths. -/
abbrev Snapshot := List (Text × Option Node)

namespace Snapshot

/-- The view that a snapshot gives from a working directory. -/
def files (known : Snapshot) (working : List Text) : Files :=
  ⟨fun path => (List.lookup path.text known).join, Path.absolute working⟩

/-- The paths that a run consulted beyond the snapshot. -/
def unknown (known : Snapshot) (events : List Event) : List Text :=
  (events.filterMap fun
    | .consulted path => some path
    | _               => none).filter fun path => (List.lookup path known).isNone

end Snapshot

/-- Look up what is at a path. -/
def lookUp (path : Text) : IO (Option Node) := do
  try
    let place ← IO.FS.realPath path.str
    if ← place.isDir then return some .directory
    else return some (.file (← IO.FS.readBinFile path.str).toList)
  catch _ => return none

/-- The reply to a command line, with as many files as it takes. -/
partial def replyFrom (working : List Text) (arguments : List Text) (known : Snapshot) :
    IO (Except CommandLine.Obstacle CommandLine.Reply) := do
  let (reply, events) := CommandLine.reply (known.files working) arguments
  match known.unknown events with
  | []    => return reply
  | paths =>
    let nodes ← paths.mapM fun path => return (path, ← lookUp path)
    replyFrom working arguments (nodes ++ known)

end MipsAsm

open MipsAsm in
/-- Assemble the file that the command line names. -/
def main (arguments : List String) : IO UInt32 := do
  let working := (Path.ofText (← IO.currentDir).toString.toList).names
  match ← replyFrom working (arguments.map String.toList) [] with
  | .ok reply       =>
    IO.eprint reply.errors
    IO.print reply.output
    return reply.exitCode.toUInt32
  | .error obstacle =>
    IO.eprintln obstacle.message
    return 1
