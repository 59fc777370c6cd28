import MipsAsm.Scan.Word

/-!
# Keyword search

A line is searched for the first of some dotted keywords that stands in code, by itself between
separators. Letters are compared without regard to case, under which the dotless and the dotted
`i` of Turkish are an `i`.
-/

namespace MipsAsm.Scan

/-- A character is the given small letter in some case. -/
def isCaseOf (a c : Char) : Bool :=
  c = a || ('A' ≤ c && c ≤ 'Z' && Char.ofNat (c.toNat + 32) = a) ||
    (a = 'i' && (c = '\u0130' || c = '\u0131'))

/-- Cut a keyword off the beginning of a text, in any case. -/
def cutKeyword? : Text → Text → Option (Text × Text)
  | [],     t      => some ([], t)
  | _ :: _, []     => none
  | a :: k, c :: t =>
    if isCaseOf a c then (cutKeyword? k t).map fun (w, rest) => (c :: w, rest) else none

/-- The end of the line or a separator. -/
def atWordEnd : Text → Bool
  | []     => true
  | c :: _ => isSeparator c

/-- The keyword with which a text begins, if a word ends there. -/
def keywordAt? (keywords : List Text) (t : Text) : Option (Text × Text) :=
  keywords.findSome? fun k => (cutKeyword? k t).filter fun (_, rest) => atWordEnd rest

/-- Search a text that is read from a state; `fresh` says that a word may begin at it. -/
def searchKeyword (keywords : List Text) : State → (fresh : Bool) → Text → Option WordSite
  | _, _,     []     => none
  | s, fresh, c :: r =>
    match if fresh && s.contextOf c = .code then keywordAt? keywords (c :: r) else none with
    | some (word, rest) => some ⟨[], word, rest⟩
    | none              =>
      (searchKeyword keywords (s.next c) (isSeparator c) r).map (·.prepend [c])

/-- The first keyword of a line that stands in code. -/
def findKeyword? (keywords : List Text) (line : Text) : Option WordSite :=
  searchKeyword keywords .code true line

end MipsAsm.Scan
