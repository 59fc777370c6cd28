import MipsAsm.Scan.Context

/-!
# Words

A word is a maximal run of characters that are no separators. Words are what macro calls, symbols,
mnemonics and directives are made of; separators are ASCII.
-/

namespace MipsAsm.Scan

/-- The characters between words. -/
def separators : Text := " \t\n\r\x0c\x0b:()\",+-#'".toList

/-- Characters that end a word. -/
def isSeparator (c : Char) : Bool := separators.contains c

/-! ### Reading one word -/

/-- The word at the beginning of a text; it may be empty. -/
def firstWord (t : Text) : Text := t.takeWhile fun c => !isSeparator c

/-- What follows the word at the beginning of a text. -/
def afterWord (t : Text) : Text := t.dropWhile fun c => !isSeparator c

theorem firstWord_append_afterWord (t : Text) : firstWord t ++ afterWord t = t :=
  List.takeWhile_append_dropWhile

/-- The text begins with a word and a colon. -/
def isTag (t : Text) : Bool := !(firstWord t).isEmpty && (afterWord t).head? == some ':'

/-- The rest of the line at the beginning of a text. -/
def restOfLine (t : Text) : Text := t.takeWhile (· ≠ '\n')

/-- What follows the first line of a text, its line feed included. -/
def afterLine (t : Text) : Text := t.dropWhile (· ≠ '\n')

theorem restOfLine_append_afterLine (t : Text) : restOfLine t ++ afterLine t = t :=
  List.takeWhile_append_dropWhile

/-! ### Words and separators of a text -/

/-- A word, or one separator. -/
inductive Piece where
  | word (text : Text)
  | separator (char : Char)
deriving DecidableEq, Repr

namespace Piece

/-- The characters of a piece. -/
def text : Piece → Text
  | .word w      => w
  | .separator c => [c]

/-- Put a character in front of pieces. A word character joins a word. -/
def cons (c : Char) (ps : List Piece) : List Piece :=
  if isSeparator c then .separator c :: ps
  else
    match ps with
    | .word w :: ps' => .word (c :: w) :: ps'
    | ps             => .word [c] :: ps

theorem flatten_cons (c : Char) (ps : List Piece) :
    ((cons c ps).map text).flatten = c :: (ps.map text).flatten := by
  unfold cons
  split
  · rfl
  · split <;> rfl

end Piece

/-- The words and separators of a text, in order. -/
def pieces (t : Text) : List Piece := t.foldr Piece.cons []

theorem pieces_flatten (t : Text) : ((pieces t).map Piece.text).flatten = t := by
  induction t with
  | nil => rfl
  | cons c r ih =>
    show ((Piece.cons c (pieces r)).map Piece.text).flatten = _
    rw [Piece.flatten_cons, ih]

/-- Replace each word of a text, and copy the separators. -/
def replaceWords (f : Text → Text) (t : Text) : Text :=
  (pieces t).flatMap fun
    | .word w      => f w
    | .separator c => [c]

/-- Replace each word that stands in code, and copy the rest. -/
def replaceInCode (f : Text → Text) (t : Text) : Text :=
  (segments t).flatMap fun seg =>
    if seg.context = .code then replaceWords f seg.text else seg.text

/-! ### Finding a word -/

/-- A word in its place. -/
structure WordSite where
  before : Text
  word   : Text
  after  : Text
deriving DecidableEq, Repr

namespace WordSite

/-- The text around the word, with the word. -/
def text (s : WordSite) : Text := s.before ++ s.word ++ s.after

/-- The site in a text with more in front. -/
def prepend (t : Text) (s : WordSite) : WordSite := { s with before := t ++ s.before }

/-- The site in a text with more at the end. -/
def append (s : WordSite) (t : Text) : WordSite := { s with after := s.after ++ t }

end WordSite

/-- The first of the words in a list of pieces that `p` accepts. -/
def findPiece? (p : Text → Bool) : List Piece → Option WordSite
  | []                 => none
  | .word w :: ps      =>
    if p w then some ⟨[], w, (ps.map Piece.text).flatten⟩
    else (findPiece? p ps).map (·.prepend w)
  | .separator c :: ps => (findPiece? p ps).map (·.prepend [c])

/-- The first word in the code of some segments that `p` accepts. -/
def findInSegments? (p : Text → Bool) : List Segment → Option WordSite
  | []          => none
  | seg :: segs =>
    if seg.context = .code then
      match findPiece? p (pieces seg.text) with
      | some site => some (site.append (segs.map Segment.text).flatten)
      | none      => (findInSegments? p segs).map (·.prepend seg.text)
    else
      (findInSegments? p segs).map (·.prepend seg.text)

/-- The first word in the code of a text that `p` accepts. -/
def findInCode? (p : Text → Bool) (t : Text) : Option WordSite := findInSegments? p (segments t)

end MipsAsm.Scan
