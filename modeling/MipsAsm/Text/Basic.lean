/-!
# Texts

Source text is a list of characters, so that every scanner of the library is a recursion on its
input. Offsets and lengths count characters. A character is a Unicode scalar value, as decoding
yields them: a text has no lone surrogates, and nothing is said of strings that do.

The lines of a text determine it: `joinLines_lines`.
-/

namespace MipsAsm

/-- A text, as the list of its characters, which are Unicode scalar values. -/
abbrev Text := List Char

namespace Text

/-- The text as a string, for messages. -/
abbrev str (t : Text) : String := String.ofList t

/-! ### Lines -/

/-- Put a character in front of the first line. -/
def consFirst (c : Char) : List Text → List Text
  | []      => [[c]]
  | l :: ls => (c :: l) :: ls

/-- The lines of a text. A line feed ends one line and begins the next, so there is always one. -/
def lines : Text → List Text
  | []     => [[]]
  | c :: r => if c = '\n' then [] :: lines r else consFirst c (lines r)

/-- Texts one after the other, with `sep` between them. -/
def joined (sep : Text) : List Text → Text
  | []           => []
  | [t]          => t
  | t :: u :: ts => t ++ sep ++ joined sep (u :: ts)

/-- The text whose lines are given. -/
def joinLines (ls : List Text) : Text := joined ['\n'] ls

theorem lines_ne_nil (t : Text) : t.lines ≠ [] := by
  cases t with
  | nil => simp [lines]
  | cons c r =>
    rw [lines]
    split
    · simp
    · cases lines r <;> simp [consFirst]

theorem joinLines_consFirst (c : Char) {ls : List Text} (h : ls ≠ []) :
    joinLines (consFirst c ls) = c :: joinLines ls := by
  match ls, h with
  | [l], _          => simp [consFirst, joinLines, joined]
  | l :: u :: ls, _ => simp [consFirst, joinLines, joined]

theorem joinLines_nil_cons {ls : List Text} (h : ls ≠ []) :
    joinLines ([] :: ls) = '\n' :: joinLines ls := by
  cases ls with
  | nil => exact absurd rfl h
  | cons l ls => simp [joinLines, joined]

/-- No character is lost or added when a text is cut into lines. -/
theorem joinLines_lines (t : Text) : joinLines t.lines = t := by
  induction t with
  | nil => simp [lines, joinLines, joined]
  | cons c r ih =>
    rw [lines]
    split
    · rename_i h
      rw [joinLines_nil_cons (lines_ne_nil r), ih, h]
    · rw [joinLines_consFirst c (lines_ne_nil r), ih]

/-! ### Prefixes -/

/-- What is left of a text after a given beginning. -/
def after? : Text → Text → Option Text
  | [],     t      => some t
  | _ :: _, []     => none
  | a :: p, c :: t => if a = c then after? p t else none

theorem eq_append_of_after? {p t r : Text} (h : after? p t = some r) : t = p ++ r := by
  induction p generalizing t with
  | nil => simpa [after?] using h
  | cons a p ih =>
    cases t with
    | nil => simp [after?] at h
    | cons c t =>
      rw [after?] at h
      split at h
      · rename_i hc
        rw [ih h, hc, List.cons_append]
      · cases h

theorem after?_append (p r : Text) : after? p (p ++ r) = some r := by
  induction p with
  | nil => rfl
  | cons a p ih => rw [List.cons_append, after?, if_pos rfl, ih]

end Text

end MipsAsm
