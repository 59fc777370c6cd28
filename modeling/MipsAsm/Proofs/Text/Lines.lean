import MipsAsm.Text.Basic
import Mathlib.Tactic.Lemma

/-!
# Lines of a text

The lines of a text contain no line feed, and lines without line feeds are the lines of the text
that they are joined to: `lines` and `joinLines` are inverse to each other.
-/

namespace MipsAsm.Text

variable {c : Char} {l t u : Text} {ls ls' : List Text}

/-! ### Joining -/

@[simp] lemma joinLines_singleton (l : Text) : joinLines [l] = l := rfl

lemma joinLines_cons (l : Text) (h : ls ≠ []) :
    joinLines (l :: ls) = l ++ '\n' :: joinLines ls := by
  match ls, h with
  | _ :: _, _ => simp [joinLines, joined]

/-- The first line, and the others after a line feed each. -/
lemma joinLines_eq_append (l : Text) (ls : List Text) :
    joinLines (l :: ls) = l ++ ls.flatMap ('\n' :: ·) := by
  induction ls generalizing l with
  | nil => simp
  | cons l' ls ih => rw [joinLines_cons l (by simp), ih l', List.flatMap_cons, List.cons_append]

lemma joinLines_append (h : ls ≠ []) (h' : ls' ≠ []) :
    joinLines (ls ++ ls') = joinLines ls ++ '\n' :: joinLines ls' := by
  induction ls with
  | nil => exact absurd rfl h
  | cons l ls ih =>
    by_cases hls : ls = []
    · subst hls
      exact joinLines_cons l h'
    · rw [List.cons_append, joinLines_cons l (by simp [hls]), ih hls, joinLines_cons l hls,
        List.append_assoc, List.cons_append]

/-- Lines that are joined count as their own lines among others. -/
lemma joinLines_splice {mid : List Text} (hmid : mid ≠ []) (ls ls' : List Text) :
    joinLines (ls ++ joinLines mid :: ls') = joinLines (ls ++ (mid ++ ls')) := by
  induction ls with
  | nil =>
    by_cases hls : ls' = []
    · subst hls
      rw [List.nil_append, List.nil_append, List.append_nil, joinLines_singleton]
    · rw [List.nil_append, List.nil_append, joinLines_cons _ hls, joinLines_append hmid hls]
  | cons l ls ih =>
    rw [List.cons_append, List.cons_append, joinLines_cons l (by simp),
      joinLines_cons l (by simp [hmid]), ih]

/-! ### Cutting -/

lemma lines_cons_of_ne (h : c ≠ '\n') (t : Text) : lines (c :: t) = consFirst c (lines t) := by
  rw [lines, if_neg h]

lemma lines_newline_cons (t : Text) : lines ('\n' :: t) = [] :: lines t := by
  rw [lines, if_pos rfl]

lemma lines_eq_singleton (h : '\n' ∉ l) : lines l = [l] := by
  induction l with
  | nil => rfl
  | cons c l ih =>
    rw [List.mem_cons, not_or] at h
    rw [lines_cons_of_ne (Ne.symm h.1), ih h.2]
    rfl

lemma lines_append_newline (h : '\n' ∉ l) (t : Text) : lines (l ++ '\n' :: t) = l :: lines t := by
  induction l with
  | nil => exact lines_newline_cons t
  | cons c l ih =>
    rw [List.mem_cons, not_or] at h
    rw [List.cons_append, lines_cons_of_ne (Ne.symm h.1), ih h.2]
    rfl

/-- A line feed cuts a text in two. -/
lemma lines_append_newline_append (t u : Text) : lines (t ++ '\n' :: u) = lines t ++ lines u := by
  induction t with
  | nil => exact lines_newline_cons u
  | cons c t ih =>
    by_cases hc : c = '\n'
    · rw [hc, List.cons_append, lines_newline_cons, lines_newline_cons, ih, List.cons_append]
    · obtain ⟨l, ls, hl⟩ := List.exists_cons_of_ne_nil (lines_ne_nil t)
      rw [List.cons_append, lines_cons_of_ne hc, lines_cons_of_ne hc, ih, hl]
      rfl

/-- The lines of joined texts are those of each. -/
lemma lines_joinLines_eq_flatMap (h : ls ≠ []) : lines (joinLines ls) = ls.flatMap lines := by
  induction ls with
  | nil => exact absurd rfl h
  | cons l ls ih =>
    by_cases hls : ls = []
    · subst hls
      rw [joinLines_singleton, List.flatMap_cons, List.flatMap_nil, List.append_nil]
    · rw [joinLines_cons l hls, lines_append_newline_append, ih hls, List.flatMap_cons]

lemma newline_not_mem_of_mem_lines (h : l ∈ lines t) : '\n' ∉ l := by
  induction t generalizing l with
  | nil =>
    rw [lines, List.mem_singleton] at h
    simp [h]
  | cons c t ih =>
    by_cases hc : c = '\n'
    · rw [hc, lines_newline_cons, List.mem_cons] at h
      rcases h with rfl | h
      · simp
      · exact ih h
    · rw [lines_cons_of_ne hc] at h
      obtain ⟨l', ls, hl⟩ := List.exists_cons_of_ne_nil (lines_ne_nil t)
      rw [hl, consFirst, List.mem_cons] at h
      rcases h with rfl | h
      · have := ih (hl ▸ List.mem_cons_self)
        simp [this, Ne.symm hc]
      · exact ih (hl ▸ List.mem_cons_of_mem _ h)

/-- Lines without line feeds are the lines of the text that they are joined to. -/
lemma lines_joinLines (hne : ls ≠ []) (h : ∀ l ∈ ls, '\n' ∉ l) : lines (joinLines ls) = ls := by
  induction ls with
  | nil => exact absurd rfl hne
  | cons l ls ih =>
    have hl := h l List.mem_cons_self
    by_cases hls : ls = []
    · subst hls
      exact lines_eq_singleton hl
    · rw [joinLines_cons l hls, lines_append_newline hl,
        ih hls fun l' hl' => h l' (List.mem_cons_of_mem _ hl')]

end MipsAsm.Text
