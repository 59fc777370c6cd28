import MipsAsm.Text.Blank
import Mathlib.Data.List.Basic
import Mathlib.Data.List.TakeWhile

/-!
# Trimmed texts

Trimming takes blanks from the ends of a text and nothing else. A text stays as it is if and only if
there is no blank at either end: `trim_eq_self_iff`.
-/

namespace MipsAsm.Text

lemma trimRight_subset (t : Text) : t.trimRight ⊆ t := by
  induction t with
  | nil => exact List.Subset.refl []
  | cons c t ih =>
    rw [trimRight]
    split
    · split
      · exact List.nil_subset _
      · exact List.cons_subset_cons c (List.nil_subset t)
    · next ht =>
      rw [ht] at ih
      exact List.cons_subset_cons c ih

lemma trim_subset (t : Text) : t.trim ⊆ t :=
  List.Subset.trans (trimRight_subset _) (List.dropWhile_subset _)

section

variable {a b : Text}

lemma trimRight_eq_nil (h : ∀ c ∈ b, isBlank c) : trimRight b = [] := by
  induction b with
  | nil => rfl
  | cons c b ih =>
    rw [List.forall_mem_cons] at h
    simp [trimRight, ih h.2, h.1]

lemma trimRight_append (h : ∀ c ∈ b, isBlank c) : trimRight (a ++ b) = trimRight a := by
  induction a with
  | nil => exact trimRight_eq_nil h
  | cons c a ih => rw [List.cons_append, trimRight, trimRight, ih]

lemma isBlank_of_mem_space : ∀ c ∈ [' '], isBlank c := List.forall_mem_singleton.mpr (by decide)

/-- Blanks at the end are trimmed. -/
lemma trim_append (h : ∀ c ∈ b, isBlank c) : trim (a ++ b) = trim a := by
  rw [trim, trim, trimLeft, trimLeft, List.dropWhile_append]
  split
  · next hblank =>
    rw [List.isEmpty_iff] at hblank
    rw [hblank, List.dropWhile_eq_nil_iff.mpr h]
  · exact trimRight_append h

lemma exists_trimRight_append (t : Text) :
    ∃ b, t = trimRight t ++ b ∧ ∀ c ∈ b, isBlank c := by
  induction t with
  | nil => exact ⟨[], rfl, nofun⟩
  | cons c t ih =>
    obtain ⟨b, hb, hblank⟩ := ih
    cases hright : trimRight t with
    | nil =>
      rw [hright, List.nil_append] at hb
      -- all that follows is trimmed, and so is `c` if it is blank
      by_cases hc : isBlank c
      · refine ⟨c :: t, by simp [trimRight, hright, hc], ?_⟩
        rw [List.forall_mem_cons, hb]
        exact ⟨hc, hblank⟩
      · refine ⟨t, by simp [trimRight, hright, hc], ?_⟩
        rw [hb]
        exact hblank
    | cons d r =>
      refine ⟨b, ?_, hblank⟩
      rw [hright] at hb
      rw [trimRight, hright]
      exact congrArg (c :: ·) hb

/-- Blanks at the beginning are trimmed. -/
lemma trim_blanks_append (h : ∀ c ∈ b, isBlank c) : trim (b ++ a) = trim a := by
  rw [trim, trim, trimLeft, trimLeft, List.dropWhile_append_of_pos h]

end

/-! ### Texts without blanks at their ends -/

lemma trimRight_append_singleton {c : Char} (hc : ¬ isBlank c) (t : Text) :
    trimRight (t ++ [c]) = t ++ [c] := by
  induction t with
  | nil => simp [trimRight, hc]
  | cons d t ih =>
    rw [List.cons_append, trimRight, ih]
    cases t <;> rfl

lemma not_isBlank_of_getLast?_trimRight {t : Text} {c : Char}
    (hc : c ∈ (trimRight t).getLast?) : ¬ isBlank c := by
  induction t with
  | nil => cases hc
  | cons d t ih =>
    rw [trimRight] at hc
    split at hc
    · split at hc
      · cases hc
      · next hd =>
        cases hc
        exact hd
    · next hright =>
      rw [hright] at ih
      exact ih (by rwa [List.getLast?_cons_cons] at hc)

lemma trim_eq_self_iff {t : Text} :
    t.trim = t ↔ (∀ c ∈ t.head?, ¬ isBlank c) ∧ ∀ c ∈ t.getLast?, ¬ isBlank c := by
  constructor
  · intro h
    have hlength : t.length ≤ (trimLeft t).length := by
      obtain ⟨b, hb, -⟩ := exists_trimRight_append (trimLeft t)
      have := congrArg List.length hb
      rw [List.length_append, show trimRight (trimLeft t) = t from h] at this
      omega
    have hleft : trimLeft t = t := (List.dropWhile_sublist _).eq_of_length_le hlength
    constructor
    · intro c hc
      rw [← hleft, trimLeft] at hc
      have := List.head?_dropWhile_not isBlank t
      rw [Option.mem_def.mp hc] at this
      simpa using this
    · intro c hc
      rw [← h] at hc
      exact not_isBlank_of_getLast?_trimRight hc
  · rintro ⟨hfirst, hlast⟩
    have hleft : trimLeft t = t := by
      cases t with
      | nil => rfl
      | cons c t => exact List.dropWhile_cons_of_neg (hfirst c rfl)
    rw [trim, hleft]
    rcases List.eq_nil_or_concat t with rfl | ⟨u, c, rfl⟩
    · rfl
    · rw [List.concat_eq_append] at hlast ⊢
      exact trimRight_append_singleton (hlast c (by simp)) u

/-- Texts that are not blank at their ends make up such a text. -/
lemma trim_joined {sep : Text} {ts : List Text} (h : ∀ t ∈ ts, t ≠ [] ∧ t.trim = t) :
    (joined sep ts).trim = joined sep ts := by
  suffices hne : ts ≠ [] → joined sep ts ≠ [] ∧ (joined sep ts).trim = joined sep ts by
    cases ts with
    | nil => rfl
    | cons t ts => exact (hne (List.cons_ne_nil t ts)).2
  intro hne
  induction ts with
  | nil => exact absurd rfl hne
  | cons t ts ih =>
    rw [List.forall_mem_cons] at h
    obtain ⟨⟨ht, htrim⟩, hts⟩ := h
    cases ts with
    | nil => exact ⟨ht, htrim⟩
    | cons u ts =>
      obtain ⟨hrest, htrimRest⟩ := ih hts (List.cons_ne_nil u ts)
      refine ⟨List.append_ne_nil_of_right_ne_nil _ hrest, ?_⟩
      rw [trim_eq_self_iff] at htrim htrimRest ⊢
      rw [joined, List.append_assoc, List.head?_append_of_ne_nil t ht, ← List.append_assoc,
        List.getLast?_append_of_ne_nil _ hrest]
      exact ⟨htrim.1, htrimRest.2⟩

end MipsAsm.Text
