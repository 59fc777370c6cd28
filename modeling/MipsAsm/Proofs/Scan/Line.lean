import MipsAsm.Scan.Line
import MipsAsm.Scan.Word
import Mathlib.Data.List.TakeWhile
import Mathlib.Tactic.Common

/-!
# Lines and their numbers

A text is read up to the end of its first line or word, whatever stands behind it. The binary search
among the offsets of the line feeds finds the number of line feeds before a position
(`lineAt_newlines`), which is the number of positions before it at which a line feed stands
(`lineAt_newlines_countP`).
-/

namespace MipsAsm.Scan

/-! ### The first line -/

section

variable {line after : Text}

lemma takeWhile_append_stop {p : Char → Bool} (h : ∀ c ∈ after.head?, p c = false) :
    (line ++ after).takeWhile p = line.takeWhile p := by
  induction line with
  | nil =>
    cases after with
    | nil => rfl
    | cons c r => exact List.takeWhile_cons_of_neg (by simp [h c rfl])
  | cons c line ih => rw [List.cons_append, List.takeWhile_cons, List.takeWhile_cons, ih]

lemma restOfLine_eq_self (hline : '\n' ∉ line) : restOfLine line = line := by
  induction line with
  | nil => rfl
  | cons c line ih =>
    rw [List.mem_cons, not_or] at hline
    rw [restOfLine, List.takeWhile_cons_of_pos (by simp [Ne.symm hline.1])]
    exact congrArg _ (ih hline.2)

lemma restOfLine_append (hafter : ∀ c ∈ after.head?, c = '\n') (hline : '\n' ∉ line) :
    restOfLine (line ++ after) = line := by
  rw [restOfLine, takeWhile_append_stop fun c hc => by simp [hafter c hc]]
  exact restOfLine_eq_self hline

end

/-! ### The first word -/

section

variable {w t : Text}

lemma firstWord_word (hw : ∀ c ∈ w, ¬ isSeparator c) (ht : ∀ c ∈ t.head?, isSeparator c) :
    firstWord (w ++ t) = w := by
  rw [firstWord, takeWhile_append_stop fun c hc => by simp [ht c hc], List.takeWhile_eq_self_iff]
  simpa using hw

lemma afterWord_word (hw : ∀ c ∈ w, ¬ isSeparator c) (ht : ∀ c ∈ t.head?, isSeparator c) :
    afterWord (w ++ t) = t := by
  have hsplit := firstWord_append_afterWord (w ++ t)
  rwa [firstWord_word hw ht, List.append_right_inj] at hsplit

/-- A label is a word and its colon. -/
lemma exists_append_of_isTag (h : isTag t) : ∃ r, t = (firstWord t ++ [':']) ++ r := by
  rw [isTag, Bool.and_eq_true, beq_iff_eq] at h
  obtain ⟨r, hr⟩ := List.head?_eq_some_iff.mp h.2
  exact ⟨r, by rw [List.append_assoc, List.singleton_append, ← hr, firstWord_append_afterWord]⟩

end

/-! ### Comments -/

/-- What is in front of a comment is the beginning of its text. -/
lemma isPrefix_stripCommentFrom (s : State) (t : Text) : stripCommentFrom s t <+: t := by
  induction t generalizing s with
  | nil => exact List.prefix_refl []
  | cons c t ih =>
    rw [stripCommentFrom]
    split
    · exact List.nil_prefix
    · exact (List.prefix_cons_inj c).mpr (ih _)

lemma isPrefix_stripComment (t : Text) : stripComment t <+: t := isPrefix_stripCommentFrom .code t

/-! ### Line numbers -/

lemma le_of_mem_newlinesFrom {t : Text} {offset p : Nat} (h : p ∈ newlinesFrom offset t) :
    offset ≤ p := by
  induction t generalizing offset with
  | nil => cases h
  | cons c t ih =>
    rw [newlinesFrom] at h
    split at h
    · rcases List.mem_cons.mp h with rfl | h
      · exact Nat.le_refl _
      · exact Nat.le_of_succ_le (ih h)
    · exact Nat.le_of_succ_le (ih h)

lemma length_newlinesFrom (offset : Nat) (t : Text) :
    (newlinesFrom offset t).length = t.count '\n' := by
  induction t generalizing offset with
  | nil => rfl
  | cons c t ih =>
    rw [newlinesFrom, List.count_cons]
    split
    · next h => simp [ih, h]
    · next h => simp [ih, h]

/-- The line feeds before a position are those of the first indices. -/
lemma newlinesFrom_lt_iff {t : Text} {offset i p : Nat} (h : (newlinesFrom offset t)[i]? = some p)
    (pos : Nat) : p < offset + pos ↔ i < (t.take pos).count '\n' := by
  induction t generalizing offset i pos with
  | nil => cases h
  | cons c t ih =>
    cases pos with
    | zero =>
      have := le_of_mem_newlinesFrom (List.mem_of_getElem? h)
      simp only [List.take_zero, List.count_nil]
      omega
    | succ pos =>
      rw [newlinesFrom] at h
      rw [List.take_succ_cons, List.count_cons]
      split at h
      · next hc =>
        cases i with
        | zero =>
          cases h
          simp [hc]
        | succ i =>
          have := ih h pos
          simp only [hc, beq_self_eq_true, if_true]
          omega
      · next hc =>
        have := ih h pos
        simp only [beq_iff_eq, hc, if_false]
        omega

/-- The line of a position in a line of a text is one more than the number of lines before. -/
lemma lineOf_append {before line : Text} (hline : '\n' ∉ line) (after : Text) {k : Nat}
    (hk : k ≤ line.length) :
    lineOf (before ++ (line ++ after)) (before.length + k) = before.count '\n' + 1 := by
  have hcount : (line.take k).count '\n' = 0 :=
    List.count_eq_zero.mpr fun h => hline (List.mem_of_mem_take h)
  rw [lineOf, List.take_length_add_append, List.take_append_of_le_length hk, List.count_append,
    hcount, Nat.add_zero]

/-- The line of a position is found by search. -/
theorem lineAt_newlines (t : Text) (pos : Nat) : lineAt (newlines t) pos = lineOf t pos := by
  have hget (i p : Nat) (h : (newlinesFrom 0 t)[i]? = some p) :
      p < pos ↔ i < (t.take pos).count '\n' := by
    simpa using newlinesFrom_lt_iff h pos
  have hsize : (newlines t).size = t.count '\n' := length_newlinesFrom 0 t
  have hle : (t.take pos).count '\n' ≤ t.count '\n' := (List.take_sublist pos t).count_le '\n'
  have hgetD (i : Nat) (hi : i < (newlines t).size) :
      (newlinesFrom 0 t)[i]? = some ((newlines t).getD i 0) := by
    have hi' : i < (newlinesFrom 0 t).length := hi
    rw [Array.getD_eq_getD_getElem?, newlines, List.getElem?_toArray, List.getElem?_eq_getElem hi']
    rfl
  -- the line feeds before the position are as many as the first indices that hold one of them
  rw [lineAt, lowerBound, lineOf, bisect_eq (k := (t.take pos).count '\n')]
  · intro i hi
    exact decide_eq_true ((hget i _ (hgetD i (by omega))).mpr hi)
  · intro i hk hi hlt
    have := (hget i _ (hgetD i hi)).mp (of_decide_eq_true hlt)
    omega
  · exact Nat.zero_le _
  · omega

/-- The line feeds before a position, by their own positions. -/
lemma count_take_eq_countP (t : Text) (pos : Nat) :
    (t.take pos).count '\n' = (List.range pos).countP fun i => t[i]? = some '\n' := by
  induction t generalizing pos with
  | nil => simp
  | cons c t ih =>
    cases pos with
    | zero => rfl
    | succ pos =>
      rw [List.take_succ_cons, List.count_cons, ih, List.range_succ_eq_map, List.countP_cons,
        List.countP_map]
      simp [Function.comp_def]

/-- The search among the offsets and the count agree on the line of each position, also behind the
end of the text. It is one more than the number of positions before it at which a line feed
stands. -/
theorem lineAt_newlines_countP (t : Text) (pos : Nat) :
    lineAt (newlines t) pos = lineOf t pos ∧
      lineOf t pos = ((List.range pos).countP fun i => t[i]? = some '\n') + 1 :=
  ⟨lineAt_newlines t pos, congrArg (· + 1) (count_take_eq_countP t pos)⟩

end MipsAsm.Scan
