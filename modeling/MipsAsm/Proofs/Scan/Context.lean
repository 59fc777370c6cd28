import MipsAsm.Scan.Word
import MipsAsm.Text.Blank
import Mathlib.Tactic.Common

/-!
# Code and comments

Characters that begin neither a literal nor a comment leave code as it is. A text in front of its
first comment may be read in parts (`stripCommentFrom_append`), and where a text is complete, what
follows it is read as if it stood alone (`Complete.stripComment_append`).
-/

namespace MipsAsm.Scan

/-! ### Characters of code -/

/-- The character neither begins a literal nor a comment. -/
def IsPlain (c : Char) : Prop := c ≠ '#' ∧ c ≠ '"' ∧ c ≠ '\''

instance : DecidablePred IsPlain := fun c =>
  inferInstanceAs (Decidable (c ≠ '#' ∧ c ≠ '"' ∧ c ≠ '\''))

/-- A class without quotes and comment signs has plain characters only. -/
lemma isPlain_of_class {p : Char → Bool} (hcomment : p '#' = false) (hdouble : p '"' = false)
    (hsingle : p '\'' = false) {c : Char} (hc : p c = true) : IsPlain c := by
  refine ⟨?_, ?_, ?_⟩
  · rintro rfl
    exact Bool.false_ne_true (hcomment.symm.trans hc)
  · rintro rfl
    exact Bool.false_ne_true (hdouble.symm.trans hc)
  · rintro rfl
    exact Bool.false_ne_true (hsingle.symm.trans hc)

lemma IsPlain.contextOf {c : Char} (h : IsPlain c) : State.code.contextOf c = .code := by
  rw [State.contextOf, if_neg h.1, if_neg h.2.1, if_neg h.2.2]

lemma IsPlain.next {c : Char} (h : IsPlain c) : State.code.next c = .code := by
  rw [State.next, if_neg h.1, if_neg h.2.1, if_neg h.2.2]

lemma isPlain_of_isBlank {c : Char} : isBlank c = true → IsPlain c :=
  isPlain_of_class rfl rfl rfl

lemma isPlain_of_not_isSeparator {c : Char} (h : (!isSeparator c) = true) : IsPlain c :=
  isPlain_of_class (p := fun c => !isSeparator c) rfl rfl rfl h

/-! ### Comments -/

/-- A comment in the first of two texts goes on in the second. -/
lemma stripCommentFrom_append (s : State) (a b : Text) :
    stripCommentFrom s (a ++ b) =
      if stripCommentFrom s a = a then a ++ stripCommentFrom (s.after a) b
      else stripCommentFrom s a := by
  induction a generalizing s with
  | nil => simp [stripCommentFrom]
  | cons c a ih =>
    by_cases hc : s.contextOf c = .comment
    · simp [stripCommentFrom, hc]
    · simp only [List.cons_append, stripCommentFrom, hc, if_false, ih, List.cons.injEq, true_and,
        State.after_cons]
      split <;> rfl

lemma stripCommentFrom_eq_self {s : State} {t : Text} (h : .comment ∉ contextsFrom s t) :
    stripCommentFrom s t = t := by
  induction t generalizing s with
  | nil => rfl
  | cons c t ih =>
    rw [contextsFrom, List.mem_cons, not_or] at h
    rw [stripCommentFrom, if_neg (Ne.symm h.1), ih h.2]

/-- What is in front of a comment has none. -/
lemma stripCommentFrom_stripCommentFrom (s : State) (t : Text) :
    stripCommentFrom s (stripCommentFrom s t) = stripCommentFrom s t := by
  induction t generalizing s with
  | nil => rfl
  | cons c t ih =>
    by_cases hc : s.contextOf c = .comment
    · simp [stripCommentFrom, hc]
    · simp [stripCommentFrom, hc, ih]

lemma stripComment_comment (t : Text) : stripComment ('#' :: t) = [] := rfl

/-- A text that begins otherwise begins so without its comment. -/
lemma head?_stripComment {t : Text} (h : t.head? ≠ some '#') :
    (stripComment t).head? = t.head? := by
  cases t with
  | nil => rfl
  | cons c t =>
    have hc : c ≠ '#' := fun hc => h (congrArg some hc)
    have hcode : State.code.contextOf c ≠ .comment := by
      rw [State.contextOf, if_neg hc]
      split_ifs <;> nofun
    rw [stripComment, stripCommentFrom, if_neg hcode]
    rfl

lemma stripComment_cons {c : Char} (hc : IsPlain c) (t : Text) :
    stripComment (c :: t) = c :: stripComment t := by
  rw [stripComment, stripCommentFrom, hc.contextOf, hc.next]
  rfl

section

variable {p : Char → Bool} (hp : ∀ {c}, p c = true → IsPlain c) (t : Text)
include hp

/-- Plain characters at the beginning of a text are in front of its comment. -/
lemma takeWhile_stripComment : (stripComment t).takeWhile p = t.takeWhile p := by
  induction t with
  | nil => rfl
  | cons c t ih =>
    by_cases hc : p c
    · rw [stripComment_cons (hp hc), List.takeWhile_cons_of_pos hc, List.takeWhile_cons_of_pos hc,
        ih]
    · rw [List.takeWhile_cons_of_neg hc, stripComment, stripCommentFrom]
      split
      · rfl
      · exact List.takeWhile_cons_of_neg hc

lemma dropWhile_stripComment : (stripComment t).dropWhile p = stripComment (t.dropWhile p) := by
  induction t with
  | nil => rfl
  | cons c t ih =>
    by_cases hc : p c
    · rw [stripComment_cons (hp hc), List.dropWhile_cons_of_pos hc, List.dropWhile_cons_of_pos hc,
        ih]
    · rw [List.dropWhile_cons_of_neg hc, stripComment, stripCommentFrom]
      split
      · rfl
      · exact List.dropWhile_cons_of_neg hc

end

lemma firstWord_stripComment (t : Text) : firstWord (stripComment t) = firstWord t :=
  takeWhile_stripComment isPlain_of_not_isSeparator t

lemma afterWord_stripComment (t : Text) :
    afterWord (stripComment t) = stripComment (afterWord t) :=
  dropWhile_stripComment isPlain_of_not_isSeparator t

/-- A comment sign is no colon. -/
lemma isTag_stripComment (t : Text) : isTag (stripComment t) = isTag t := by
  rw [isTag, isTag, firstWord_stripComment, afterWord_stripComment]
  -- a comment right behind the word is all that is left out of it
  by_cases hcomment : (afterWord t).head? = some '#'
  · obtain ⟨r, hr⟩ := List.head?_eq_some_iff.mp hcomment
    rw [hr, stripComment_comment]
    rfl
  · rw [head?_stripComment hcomment]

/-! ### Complete texts -/

/-- A text after which code goes on: its literals are closed, and it has no comment. -/
structure Complete (t : Text) : Prop where
  ends        : State.code.after t = .code
  uncommented : .comment ∉ contexts t

lemma complete_nil : Complete [] := ⟨rfl, nofun⟩

lemma complete_cons {c : Char} {t : Text} (hc : IsPlain c) (ht : Complete t) :
    Complete (c :: t) where
  ends := by rw [State.after_cons, hc.next, ht.ends]
  uncommented := by
    rw [contexts, contextsFrom, hc.contextOf, hc.next, List.mem_cons, not_or]
    exact ⟨by decide, ht.uncommented⟩

lemma complete_of_isPlain {t : Text} (h : ∀ c ∈ t, IsPlain c) : Complete t := by
  induction t with
  | nil => exact complete_nil
  | cons c t ih =>
    rw [List.forall_mem_cons] at h
    exact complete_cons h.1 (ih h.2)

namespace Complete

variable {t u : Text}

lemma append (ht : Complete t) (hu : Complete u) : Complete (t ++ u) where
  ends := by rw [State.after_append, ht.ends, hu.ends]
  uncommented := by
    rw [contexts, contextsFrom_append, ht.ends, List.mem_append]
    exact not_or.mpr ⟨ht.uncommented, hu.uncommented⟩

lemma stripComment_append (ht : Complete t) (u : Text) :
    stripComment (t ++ u) = t ++ stripComment u := by
  rw [stripComment, stripCommentFrom_append, if_pos (stripCommentFrom_eq_self ht.uncommented),
    ht.ends]
  rfl

lemma stripComment_eq_self (ht : Complete t) : stripComment t = t :=
  stripCommentFrom_eq_self ht.uncommented

end Complete

end MipsAsm.Scan
