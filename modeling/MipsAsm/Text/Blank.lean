import MipsAsm.Text.Basic

/-!
# Blanks

White space as Unicode has it, with the four ASCII information separators. Trimming and the
division of statements go by this class.
-/

namespace MipsAsm

/-- White space and the separators of paragraphs, lines, groups, records and units. -/
def isBlank (c : Char) : Bool :=
  let n := c.toNat
  (9 ≤ n && n ≤ 13) || (0x1C ≤ n && n ≤ 0x20) || n == 0x85 || n == 0xA0 || n == 0x1680 ||
  (0x2000 ≤ n && n ≤ 0x200A) || n == 0x2028 || n == 0x2029 || n == 0x202F || n == 0x205F ||
  n == 0x3000

namespace Text

/-- The text without the blanks at its beginning. -/
def trimLeft (t : Text) : Text := t.dropWhile isBlank

/-- The text without the blanks at its end. -/
def trimRight : Text → Text
  | []     => []
  | c :: r =>
    match trimRight r with
    | []      => if isBlank c then [] else [c]
    | d :: r' => c :: d :: r'

/-- The text without the blanks at either end. -/
def trim (t : Text) : Text := t.trimLeft.trimRight

end Text

end MipsAsm
