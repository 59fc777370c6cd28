import MipsAsm.Scan.Bisect
import MipsAsm.Text.Basic

/-!
# Code, literals and comments

One automaton reads a text and says of each character whether it belongs to code, to a string or
character literal, or to a comment. Literals and comments end at the end of their line at the
latest; a backslash takes the character after it into the literal, unless that is a line feed.

`contexts` marks each character, `segments` collects the marks into maximal stretches, and
`segments_flatten` says that the stretches make up the text.
-/

namespace MipsAsm.Scan

/-- The two quotes: strings stand between double ones, characters between single ones. -/
inductive Quote where
  | double
  | single
deriving DecidableEq, Repr

/-- The character of a quote. -/
def Quote.char : Quote → Char
  | .double => '"'
  | .single => '\''

/-- What a character of a text belongs to. -/
inductive Context where
  | code
  | literal (quote : Quote)
  | comment
deriving DecidableEq, Repr

/-- What has been read before a character: code, a comment, or an open literal, in which the last
character may have been a backslash that takes the next one. -/
inductive State where
  | code
  | comment
  | literal (quote : Quote)
  | escaped (quote : Quote)
deriving DecidableEq, Repr

namespace State

/-- The state after a character. -/
def next : State → Char → State
  | .code,      c =>
    if c = '#' then .comment
    else if c = '"' then .literal .double
    else if c = '\'' then .literal .single
    else .code
  | .comment,   c => if c = '\n' then .code else .comment
  | .literal q, c =>
    if c = '\n' ∨ c = q.char then .code
    else if c = '\\' then .escaped q
    else .literal q
  | .escaped q, c => if c = '\n' then .code else .literal q

/-- What a character belongs to. The quotes belong to their literal, the `#` to its comment, and a
line feed to code. -/
def contextOf : State → Char → Context
  | .code,      c =>
    if c = '#' then .comment
    else if c = '"' then .literal .double
    else if c = '\'' then .literal .single
    else .code
  | .comment,   c => if c = '\n' then .code else .comment
  | .literal q, c => if c = '\n' then .code else .literal q
  | .escaped q, c => if c = '\n' then .code else .literal q

/-- The state after a text. -/
def after (s : State) (t : Text) : State := t.foldl next s

@[simp] theorem after_nil (s : State) : s.after [] = s := rfl

@[simp] theorem after_cons (s : State) (c : Char) (t : Text) :
    s.after (c :: t) = (s.next c).after t := rfl

theorem after_append (s : State) (t u : Text) : s.after (t ++ u) = (s.after t).after u := by
  simp [after]

/-- A line feed leads back to code from every state. -/
theorem next_newline (s : State) : s.next '\n' = .code := by
  cases s <;> simp [next]

end State

/-! ### Marks -/

/-- The contexts of the characters of a text that is read from a state. -/
def contextsFrom : State → Text → List Context
  | _, []     => []
  | s, c :: r => s.contextOf c :: contextsFrom (s.next c) r

/-- The contexts of the characters of a text. -/
def contexts (t : Text) : List Context := contextsFrom .code t

@[simp] theorem length_contextsFrom (s : State) (t : Text) :
    (contextsFrom s t).length = t.length := by
  induction t generalizing s with
  | nil => rfl
  | cons c r ih => simp [contextsFrom, ih]

/-- A scan may stop anywhere and go on from the state that it has reached. -/
theorem contextsFrom_append (s : State) (t u : Text) :
    contextsFrom s (t ++ u) = contextsFrom s t ++ contextsFrom (s.after t) u := by
  induction t generalizing s with
  | nil => rfl
  | cons c r ih => simp [contextsFrom, ih]

/-! ### Segments -/

/-- A stretch of a text that belongs to one context. -/
structure Segment where
  context : Context
  text    : Text
deriving DecidableEq, Repr

/-- Put a character that is read in state `s` in front of the segments after it. It joins the first
of them if both have one context, unless it closes a literal. -/
def consSegment (s : State) (c : Char) : List Segment → List Segment
  | []          => [⟨s.contextOf c, [c]⟩]
  | seg :: segs =>
    if s.contextOf c = seg.context ∧ (s.contextOf c = .code ∨ s.next c ≠ .code) then
      ⟨seg.context, c :: seg.text⟩ :: segs
    else
      ⟨s.contextOf c, [c]⟩ :: seg :: segs

/-- The segments of a text that is read from a state. -/
def segmentsFrom : State → Text → List Segment
  | _, []     => []
  | s, c :: r => consSegment s c (segmentsFrom (s.next c) r)

/-- The segments of a text: code, each literal and each comment by itself. -/
def segments (t : Text) : List Segment := segmentsFrom .code t

theorem flatten_consSegment (s : State) (c : Char) (segs : List Segment) :
    ((consSegment s c segs).map Segment.text).flatten = c :: (segs.map Segment.text).flatten := by
  cases segs with
  | nil => rfl
  | cons seg segs =>
    rw [consSegment]
    split <;> simp

theorem segmentsFrom_flatten (s : State) (t : Text) :
    ((segmentsFrom s t).map Segment.text).flatten = t := by
  induction t generalizing s with
  | nil => rfl
  | cons c r ih => rw [segmentsFrom, flatten_consSegment, ih]

/-- The segments of a text, one after the other, are the text. -/
theorem segments_flatten (t : Text) : ((segments t).map Segment.text).flatten = t :=
  segmentsFrom_flatten .code t

/-- A segment by its place: where it begins and where the next one does. -/
structure Span where
  context : Context
  first   : Nat
  stop    : Nat
deriving DecidableEq, Repr

/-- The places of segments, the first of which begins at `offset`. -/
def spansFrom (offset : Nat) : List Segment → List Span
  | []          => []
  | seg :: segs =>
    ⟨seg.context, offset, offset + seg.text.length⟩ :: spansFrom (offset + seg.text.length) segs

/-- The places of the segments of a text. -/
def spans (t : Text) : List Span := spansFrom 0 (segments t)

/-- The context at a position. Bisection finds the last span that begins no later. A position in
front of every span is in code, and so is one that this span does not reach. -/
def contextAt (spans : List Span) (pos : Nat) : Context :=
  match upperBound (spans.map Span.first).toArray pos 0 spans.length with
  | 0     => .code
  | k + 1 => spans[k]?.elim .code fun s => if pos < s.stop then s.context else .code

/-! ### Comments -/

/-- The text up to its first comment, read from a state. -/
def stripCommentFrom : State → Text → Text
  | _, []     => []
  | s, c :: r => if s.contextOf c = .comment then [] else c :: stripCommentFrom (s.next c) r

/-- The text up to its first comment. -/
def stripComment (t : Text) : Text := stripCommentFrom .code t

end MipsAsm.Scan
