import MipsAsm.Scan.Keyword
import Mathlib.Tactic.Common

/-!
# Sites

A keyword or a word that is found in a line stands there: the site is a division of the line.
-/

namespace MipsAsm.Scan

/-! ### Keywords -/

lemma append_of_cutKeyword? {k t w rest : Text} (h : cutKeyword? k t = some (w, rest)) :
    w ++ rest = t := by
  induction k generalizing t w with
  | nil =>
    cases h
    rfl
  | cons a k ih =>
    cases t with
    | nil => cases h
    | cons c t =>
      rw [cutKeyword?] at h
      split at h
      · obtain ⟨⟨w', rest'⟩, hcut, heq⟩ := Option.map_eq_some_iff.mp h
        cases heq
        rw [List.cons_append, ih hcut]
      · cases h

lemma append_of_keywordAt? {keywords : List Text} {t w rest : Text}
    (h : keywordAt? keywords t = some (w, rest)) : w ++ rest = t := by
  obtain ⟨k, -, hk⟩ := List.exists_of_findSome?_eq_some h
  exact append_of_cutKeyword? (Option.eq_some_of_filter_eq_some hk)

lemma text_of_searchKeyword {keywords : List Text} {s : State} {fresh : Bool} {t : Text}
    {site : WordSite} (h : searchKeyword keywords s fresh t = some site) : site.text = t := by
  induction t generalizing s fresh site with
  | nil => cases h
  | cons c t ih =>
    rw [searchKeyword] at h
    split at h
    · next hat =>
      cases h
      split at hat
      · exact append_of_keywordAt? hat
      · cases hat
    · obtain ⟨site', hsite, rfl⟩ := Option.map_eq_some_iff.mp h
      exact congrArg (c :: ·) (ih hsite)

/-- The site of a keyword is a division of its line. -/
lemma text_of_findKeyword? {keywords : List Text} {line : Text} {site : WordSite}
    (h : findKeyword? keywords line = some site) : site.text = line :=
  text_of_searchKeyword h

/-! ### Words -/

lemma WordSite.text_prepend (t : Text) (site : WordSite) :
    (site.prepend t).text = t ++ site.text := by
  simp [WordSite.text, WordSite.prepend]

lemma WordSite.text_append (site : WordSite) (t : Text) :
    (site.append t).text = site.text ++ t := by
  simp [WordSite.text, WordSite.append]

lemma WordSite.not_mem_text {site : WordSite} {c : Char} :
    c ∉ site.text ↔ c ∉ site.before ∧ c ∉ site.word ∧ c ∉ site.after := by
  simp [WordSite.text]

section

variable {p : Text → Bool} {site : WordSite}

lemma text_of_findPiece? {ps : List Piece} (h : findPiece? p ps = some site) :
    site.text = (ps.map Piece.text).flatten := by
  induction ps generalizing site with
  | nil => cases h
  | cons piece ps ih =>
    rw [List.map_cons, List.flatten_cons]
    cases piece with
    | word w =>
      rw [findPiece?] at h
      split at h
      · cases h
        rfl
      · obtain ⟨site', hsite, rfl⟩ := Option.map_eq_some_iff.mp h
        rw [WordSite.text_prepend, ih hsite]
        rfl
    | separator c =>
      obtain ⟨site', hsite, rfl⟩ := Option.map_eq_some_iff.mp h
      rw [WordSite.text_prepend, ih hsite]
      rfl

lemma text_of_findInSegments? {segs : List Segment} (h : findInSegments? p segs = some site) :
    site.text = (segs.map Segment.text).flatten := by
  induction segs generalizing site with
  | nil => cases h
  | cons seg segs ih =>
    have hlater {site : WordSite}
        (h : (findInSegments? p segs).map (·.prepend seg.text) = some site) :
        site.text = seg.text ++ (segs.map Segment.text).flatten := by
      obtain ⟨site', hsite, rfl⟩ := Option.map_eq_some_iff.mp h
      rw [WordSite.text_prepend, ih hsite]
    rw [List.map_cons, List.flatten_cons]
    rw [findInSegments?] at h
    split at h
    · split at h
      · next hfound =>
        cases h
        rw [WordSite.text_append, text_of_findPiece? hfound, pieces_flatten]
      · exact hlater h
    · exact hlater h

/-- The site of a word is a division of its text. -/
lemma text_of_findInCode? {t : Text} (h : findInCode? p t = some site) : site.text = t := by
  rw [text_of_findInSegments? h, segments_flatten]

lemma not_mem_before {t : Text} {c : Char} (h : findInCode? p t = some site) (hc : c ∉ t) :
    c ∉ site.before := by
  rw [← text_of_findInCode? h, WordSite.not_mem_text] at hc
  exact hc.1

end

end MipsAsm.Scan
