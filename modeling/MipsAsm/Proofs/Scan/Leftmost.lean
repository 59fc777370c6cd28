import MipsAsm.Proofs.Scan.Line
import MipsAsm.Proofs.Scan.Search

/-!
# The leftmost word

A search of code goes through the words of code from left to right. `WordSite.IsWhole` and
`StandsIn` say what these are, without a search: maximal runs of characters between separators,
within a segment of code. What a search finds is the leftmost of them that it accepts
(`findInCode?_eq_some_iff`), and so is the keyword that a line is searched for
(`findKeyword?_eq_some_iff`).
-/

namespace MipsAsm.Scan

/-! ### Whole words -/

namespace WordSite

/-- The word of a site is a whole one: it has no separators, and it goes on at neither end. -/
structure IsWhole (site : WordSite) : Prop where
  ne_nil          : site.word ≠ []
  not_isSeparator : ∀ c ∈ site.word, ¬ isSeparator c
  fresh           : freshAfter true site.before
  ends            : atWordEnd site.after

variable {t u w : Text} {site : WordSite}

/-- A word stays whole with more text in front of it, unless that ends in a word which goes on. -/
lemma isWhole_prepend_iff :
    (site.prepend u).IsWhole ↔ site.IsWhole ∧ (freshAfter true u ∨ site.before ≠ []) := by
  have hfresh : freshAfter true (u ++ site.before) ↔
      freshAfter true site.before ∧ (freshAfter true u ∨ site.before ≠ []) := by
    rw [freshAfter_append]
    cases site.before <;> simp [freshAfter]
  constructor
  · intro h
    obtain ⟨hbefore, hbegins⟩ := hfresh.mp h.fresh
    exact ⟨⟨h.ne_nil, h.not_isSeparator, hbefore, h.ends⟩, hbegins⟩
  · rintro ⟨h, hbegins⟩
    exact ⟨h.ne_nil, h.not_isSeparator, hfresh.mpr ⟨h.fresh, hbegins⟩, h.ends⟩

namespace IsWhole

lemma before_ne_nil (h : site.IsWhole) (hend : atWordEnd site.text) : site.before ≠ [] := by
  intro hbefore
  rw [text, hbefore, List.nil_append] at hend
  exact not_atWordEnd_word h.ne_nil h.not_isSeparator site.after hend

/-- Only one whole word begins where a text does. -/
lemma eq_of_before_eq_nil (h : site.IsWhole) (htext : site.text = w ++ t)
    (hbefore : site.before = []) (hw : ∀ c ∈ w, ¬ isSeparator c) (ht : atWordEnd t) :
    site = ⟨[], w, t⟩ := by
  obtain ⟨before, word, after⟩ := site
  obtain rfl : before = [] := hbefore
  have htext : word ++ after = w ++ t := htext
  have hend {t : Text} (ht : atWordEnd t) : ∀ c ∈ t.head?, isSeparator c :=
    fun c => isSeparator_of_mem_head? ht
  have hword : firstWord (word ++ after) = word := firstWord_word h.not_isSeparator (hend h.ends)
  have hafter : afterWord (word ++ after) = after := afterWord_word h.not_isSeparator (hend h.ends)
  rw [htext] at hword hafter
  rw [← hword, ← hafter, firstWord_word hw (hend ht), afterWord_word hw (hend ht)]

/-- Every other whole word stands behind the first one. -/
lemma exists_prepend (h : site.IsWhole) (htext : site.text = w ++ t) (hbefore : site.before ≠ [])
    (hw : ∀ c ∈ w, ¬ isSeparator c) :
    ∃ site' : WordSite, site = site'.prepend w ∧ site'.text = t := by
  rw [text, List.append_assoc, List.append_eq_append_iff] at htext
  rcases htext with ⟨v, rfl, -⟩ | ⟨v, hv, ht⟩
  · -- a text that ends within the first word leaves no place for a word to begin
    rw [List.forall_mem_append] at hw
    have hfresh := h.fresh
    rw [freshAfter_word hbefore hw.1] at hfresh
    cases hfresh
  · refine ⟨⟨v, site.word, site.after⟩, ?_, by rw [ht, text, List.append_assoc]⟩
    rw [prepend, ← hv]

end IsWhole

end WordSite

/-! ### Words of a text -/

/-- The words among pieces, in order, each in its place. -/
def wordSites : List Piece → List WordSite
  | []                 => []
  | .word w :: ps      => ⟨[], w, (ps.map Piece.text).flatten⟩ :: (wordSites ps).map (·.prepend w)
  | .separator c :: ps => (wordSites ps).map (·.prepend [c])

lemma findPiece?_eq_find? (p : Text → Bool) (ps : List Piece) :
    findPiece? p ps = (wordSites ps).find? (p ·.word) := by
  induction ps with
  | nil => rfl
  | cons piece ps ih =>
    cases piece with
    | word w =>
      rw [findPiece?, wordSites, List.find?_cons, List.find?_map, ih]
      cases p w <;> rfl
    | separator c =>
      rw [findPiece?, wordSites, List.find?_map, ih]
      rfl

/-- The words of a text are its whole words. -/
lemma mem_wordSites_iff {t : Text} {site : WordSite} :
    site ∈ wordSites (pieces t) ↔ site.text = t ∧ site.IsWhole := by
  induction t using word_induction generalizing site with
  | nil =>
    refine ⟨nofun, fun ⟨htext, hwhole⟩ => ?_⟩
    rw [WordSite.text, List.append_eq_nil_iff, List.append_eq_nil_iff] at htext
    exact absurd htext.1.2 hwhole.ne_nil
  | separator c t hc ih =>
    rw [pieces_cons_separator hc, wordSites, List.mem_map]
    constructor
    · rintro ⟨site, hsite, rfl⟩
      obtain ⟨rfl, hwhole⟩ := ih.mp hsite
      exact ⟨site.text_prepend [c], WordSite.isWhole_prepend_iff.mpr ⟨hwhole, .inl hc⟩⟩
    · rintro ⟨htext, hwhole⟩
      -- the text begins with a separator, so no word begins there
      obtain ⟨before, word, after⟩ := site
      cases before with
      | nil => exact absurd rfl (hwhole.before_ne_nil (htext ▸ hc))
      | cons d before =>
        obtain ⟨rfl, rfl⟩ := List.cons.inj htext
        let site : WordSite := ⟨before, word, after⟩
        have hsite : (site.prepend [d]).IsWhole := hwhole
        exact ⟨site, ih.mpr ⟨rfl, (WordSite.isWhole_prepend_iff.mp hsite).1⟩, rfl⟩
  | word w t hne hw hend ih =>
    rw [pieces_append hne hw hend, wordSites, pieces_flatten, List.mem_cons, List.mem_map]
    constructor
    · rintro (rfl | ⟨site, hsite, rfl⟩)
      · exact ⟨rfl, hne, hw, rfl, hend⟩
      · obtain ⟨rfl, hwhole⟩ := ih.mp hsite
        have hbefore := hwhole.before_ne_nil hend
        exact ⟨site.text_prepend w, WordSite.isWhole_prepend_iff.mpr ⟨hwhole, .inr hbefore⟩⟩
    · rintro ⟨htext, hwhole⟩
      -- the word in front, or one behind it
      by_cases hbefore : site.before = []
      · exact .inl (hwhole.eq_of_before_eq_nil htext hbefore hw hend)
      · obtain ⟨site, rfl, rfl⟩ := hwhole.exists_prepend htext hbefore hw
        have hsite := WordSite.isWhole_prepend_iff.mp hwhole
        exact .inr ⟨site, ih.mpr ⟨rfl, hsite.1⟩, rfl⟩

/-- The sites begin further and further to the right. -/
def LeftToRight (sites : List WordSite) : Prop :=
  sites.Pairwise fun a b => a.before.length < b.before.length

lemma LeftToRight.prepend {sites : List WordSite} (h : LeftToRight sites) (u : Text) :
    LeftToRight (sites.map (·.prepend u)) := by
  rw [LeftToRight, List.pairwise_map]
  refine h.imp fun hlt => ?_
  simpa [WordSite.prepend] using hlt

lemma leftToRight_wordSites (t : Text) : LeftToRight (wordSites (pieces t)) := by
  induction t using word_induction with
  | nil => exact .nil
  | separator c t hc ih =>
    rw [pieces_cons_separator hc, wordSites]
    exact ih.prepend [c]
  | word w t hne hw hend ih =>
    rw [pieces_append hne hw hend, wordSites, LeftToRight, List.pairwise_cons, List.forall_mem_map]
    refine ⟨fun site _ => ?_, ih.prepend w⟩
    have hpos := List.length_pos_iff.mpr hne
    simp only [WordSite.prepend, List.length_nil, List.length_append]
    omega

/-! ### Words of code -/

/-- A site in the text of segments: a whole word of one of them that is code. -/
inductive StandsIn : List Segment → WordSite → Prop where
  | here {seg : Segment} {segs : List Segment} {site : WordSite} (hcode : seg.context = .code)
      (htext : site.text = seg.text) (hwhole : site.IsWhole) :
      StandsIn (seg :: segs) (site.append (segs.map Segment.text).flatten)
  | later {seg : Segment} {segs : List Segment} {site : WordSite} (h : StandsIn segs site) :
      StandsIn (seg :: segs) (site.prepend seg.text)

/-- The words in the code of segments, in order, each in its place. -/
def codeSites : List Segment → List WordSite
  | []          => []
  | seg :: segs =>
    (if seg.context = .code then wordSites (pieces seg.text) else []).map
        (·.append (segs.map Segment.text).flatten) ++
      (codeSites segs).map (·.prepend seg.text)

lemma findInSegments?_eq_find? (p : Text → Bool) (segs : List Segment) :
    findInSegments? p segs = (codeSites segs).find? (p ·.word) := by
  induction segs with
  | nil => rfl
  | cons seg segs ih =>
    have hfirst : (if seg.context = .code then findPiece? p (pieces seg.text) else none) =
        (if seg.context = .code then wordSites (pieces seg.text) else []).find? (p ·.word) := by
      split
      · exact findPiece?_eq_find? p _
      · rfl
    rw [findInSegments?_cons, codeSites, List.find?_append, List.find?_map, List.find?_map, hfirst,
      ih]
    rfl

lemma mem_codeSites_iff {segs : List Segment} {site : WordSite} :
    site ∈ codeSites segs ↔ StandsIn segs site := by
  induction segs generalizing site with
  | nil => exact ⟨nofun, nofun⟩
  | cons seg segs ih =>
    rw [codeSites, List.mem_append, List.mem_map, List.mem_map]
    constructor
    · rintro (⟨site, hsite, rfl⟩ | ⟨site, hsite, rfl⟩)
      · split at hsite
        · next hcode =>
          obtain ⟨htext, hwhole⟩ := mem_wordSites_iff.mp hsite
          exact .here hcode htext hwhole
        · cases hsite
      · exact .later (ih.mp hsite)
    · rintro (⟨hcode, htext, hwhole⟩ | h)
      · refine .inl ⟨_, ?_, rfl⟩
        rw [if_pos hcode]
        exact mem_wordSites_iff.mpr ⟨htext, hwhole⟩
      · exact .inr ⟨_, ih.mpr h, rfl⟩

lemma leftToRight_codeSites (segs : List Segment) : LeftToRight (codeSites segs) := by
  induction segs with
  | nil => exact .nil
  | cons seg segs ih =>
    rw [codeSites, LeftToRight, List.pairwise_append, List.forall_mem_map]
    refine ⟨?_, ih.prepend seg.text, fun a ha => ?_⟩
    · rw [List.pairwise_map]
      split
      · exact leftToRight_wordSites seg.text
      · exact .nil
    · -- a word of this segment ends before the later segments begin
      rw [List.forall_mem_map]
      intro b _
      split at ha
      · obtain ⟨htext, hwhole⟩ := mem_wordSites_iff.mp ha
        have hpos := List.length_pos_iff.mpr hwhole.ne_nil
        have hlength := congrArg List.length htext
        simp only [WordSite.text, List.length_append] at hlength
        simp only [WordSite.append, WordSite.prepend, List.length_append]
        omega
      · cases ha

/-! ### The leftmost word -/

/-- The site is one of some sites, and none of them begins further to the left. -/
structure WordSite.IsLeftmost (sites : WordSite → Prop) (site : WordSite) : Prop where
  mem : sites site
  le  : ∀ site', sites site' → site.before.length ≤ site'.before.length

/-- What is found first from left to right is leftmost. -/
lemma LeftToRight.find?_eq_some_iff {p : WordSite → Bool} {sites : List WordSite}
    (h : LeftToRight sites) {site : WordSite} :
    sites.find? p = some site ↔ site.IsLeftmost fun a => a ∈ sites ∧ p a := by
  induction sites with
  | nil => exact ⟨nofun, fun h => nomatch h.mem.1⟩
  | cons a sites ih =>
    obtain ⟨hlt, hsites⟩ := List.pairwise_cons.mp h
    by_cases hp : p a
    · rw [List.find?_cons_of_pos hp, Option.some_inj]
      constructor
      · rintro rfl
        refine ⟨⟨List.mem_cons_self, hp⟩, fun b hb => ?_⟩
        rcases List.mem_cons.mp hb.1 with rfl | hmem
        · exact Nat.le_refl _
        · exact Nat.le_of_lt (hlt b hmem)
      · intro hfirst
        rcases List.mem_cons.mp hfirst.mem.1 with rfl | hmem
        · rfl
        · have hle := hfirst.le a ⟨List.mem_cons_self, hp⟩
          -- `a` is accepted too, and further to the left
          exact absurd hle (Nat.not_le.mpr (hlt site hmem))
    · have hmem (b : WordSite) : b ∈ a :: sites ∧ p b ↔ b ∈ sites ∧ p b := by
        refine and_congr_left fun hb => List.mem_cons.trans (or_iff_right ?_)
        rintro rfl
        exact hp hb
      rw [List.find?_cons_of_neg hp, ih hsites]
      simp only [hmem]

section

variable {p : Text → Bool} {t : Text}

/-- A search of code finds the leftmost word of code that it accepts. -/
lemma findInCode?_eq_some_iff {site : WordSite} :
    findInCode? p t = some site ↔
      site.IsLeftmost fun a => StandsIn (segments t) a ∧ p a.word := by
  rw [findInCode?, findInSegments?_eq_find?, (leftToRight_codeSites _).find?_eq_some_iff]
  simp only [mem_codeSites_iff]

lemma isSome_findInCode?_iff :
    (findInCode? p t).isSome ↔ ∃ site, StandsIn (segments t) site ∧ p site.word := by
  rw [findInCode?, findInSegments?_eq_find?, List.find?_isSome]
  simp only [mem_codeSites_iff]

end

/-! ### Keywords -/

/-- A whole word in the code of a line that spells one of the keywords. -/
def IsKeywordSite (keywords : List Text) (line : Text) (site : WordSite) : Prop :=
  StandsIn (segments line) site ∧ ∃ k ∈ keywords, spells k site.word

section

variable {keywords : List Text} (hkeywords : ∀ k ∈ keywords, IsKeyword k) (line : Text)
include hkeywords

/-- A keyword search finds the leftmost word of code that spells a keyword. -/
lemma findKeyword?_eq_some_iff {site : WordSite} :
    findKeyword? keywords line = some site ↔ site.IsLeftmost (IsKeywordSite keywords line) := by
  rw [findKeyword?_eq hkeywords, findInCode?_eq_some_iff]
  simp only [List.any_eq_true]
  rfl

lemma isSome_findKeyword?_iff :
    (findKeyword? keywords line).isSome ↔ ∃ site, IsKeywordSite keywords line site := by
  rw [findKeyword?_eq hkeywords, isSome_findInCode?_iff]
  simp only [List.any_eq_true]
  rfl

end

end MipsAsm.Scan
