import MipsAsm.Source.Files

/-!
# Settings

What preprocessing is told: where the program comes from and what it may use.
-/

namespace MipsAsm

/-- Where a program comes from and what it may use. -/
structure Settings where
  files    : Files
  source   : Option Path := none
  libs     : List Path := []
  encoding : Codec := .named "utf-8".toList
  maxDepth : Int := 16

/-- The text that is being processed: the file that it belongs to, and the places of all files that
led to it. -/
structure Frame where
  file   : Option Path
  active : List (List Text)
deriving DecidableEq, Repr

namespace Settings

/-- The levels that are allowed: the text itself, and what is nested in it. -/
def levels (settings : Settings) : Nat := (settings.maxDepth + 1).toNat

/-- The frame of the text itself. -/
def outermost (settings : Settings) : Frame :=
  ⟨settings.source, (settings.source.map settings.files.absolute).toList⟩

end Settings

end MipsAsm
