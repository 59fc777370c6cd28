import MipsAsm.Text.Alphanumeric

/-!
# Identifiers

Labels and macro names begin with a word character that is no decimal digit, or with an emoji, and
go on with word characters, dots and emoji.
-/

namespace MipsAsm.Scan

/-- Code ranges of the emoji that identifiers admit, with the joiner and the variation selector. -/
def emojiRanges : List (Nat × Nat) :=
  [(0xA9, 0xA9), (0xAE, 0xAE), (0x200D, 0x200D), (0x203C, 0x203C), (0x2049, 0x2049),
   (0x2122, 0x2122), (0x2139, 0x2139), (0x2194, 0x21AA), (0x231A, 0x23FF), (0x24C2, 0x24C2),
   (0x25AA, 0x25FE), (0x2600, 0x27BF), (0x2934, 0x2935), (0x2B05, 0x2B55), (0x3030, 0x3030),
   (0x303D, 0x303D), (0x3297, 0x3297), (0x3299, 0x3299), (0xFE0F, 0xFE0F), (0x1F000, 0x1FAFF)]

/-- Emoji, the joiner and the variation selector. -/
def isEmoji (c : Char) : Bool :=
  let n := c.toNat
  if n < 0x80 then false else inRanges emojiRanges n

/-- Characters with which an identifier begins. -/
def isIdentifierStart (c : Char) : Bool := (isWordChar c && !isDecimal c) || isEmoji c

/-- Characters with which an identifier goes on. -/
def isIdentifierPart (c : Char) : Bool := isWordChar c || c == '.' || isEmoji c

/-- A text that is one identifier. -/
def isIdentifier : Text → Bool
  | []     => false
  | c :: r => isIdentifierStart c && r.all isIdentifierPart

end MipsAsm.Scan
