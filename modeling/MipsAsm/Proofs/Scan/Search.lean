import MipsAsm.Proofs.Scan.Keyword
import MipsAsm.Proofs.Scan.Rewriting

/-!
# Searching code

A keyword search finds the first word of code that spells a keyword (`findKeyword?_eq`). A word that
is found stands in code, where a word may begin (`isFirst_of_findInCode?`), and a search through two
texts in a row is a search through one and then the other, unless a word goes on from one to the
other (`findFrom?_append`).
-/

namespace MipsAsm.Scan

/-! ### Words in code -/

section

variable {p : Text → Bool} {s : State}

/-- The first word that `p` accepts in the code of a text that is read from a state. -/
def findFrom? (p : Text → Bool) (s : State) (t : Text) : Option WordSite :=
  findInSegments? p (segmentsFrom s t)

lemma WordSite.prepend_prepend (site : WordSite) (t u : Text) :
    (site.prepend u).prepend t = site.prepend (t ++ u) := by
  simp [prepend]

lemma findInSegments?_cons (seg : Segment) (segs : List Segment) :
    findInSegments? p (seg :: segs) =
      ((if seg.context = .code then findPiece? p (pieces seg.text) else none).map
        (·.append (segs.map Segment.text).flatten)).or
      ((findInSegments? p segs).map (·.prepend seg.text)) := by
  rw [findInSegments?]
  split
  · cases findPiece? p (pieces seg.text) <;> rfl
  · rfl

lemma findPiece?_cons_separator {c : Char} (hc : isSeparator c) (t : Text) :
    findPiece? p (pieces (c :: t)) = (findPiece? p (pieces t)).map (·.prepend [c]) := by
  rw [pieces_cons_separator hc, findPiece?]

/-- A character that belongs to no word in code is passed over. -/
lemma findInSegments?_consSegment {c : Char} (hc : isSeparator c ∨ s.contextOf c ≠ .code)
    (segs : List Segment) :
    findInSegments? p (consSegment s c segs) =
      (findInSegments? p segs).map (·.prepend [c]) := by
  have hfirst (t : Text) :
      (if s.contextOf c = .code then findPiece? p (pieces (c :: t)) else none) =
        (if s.contextOf c = .code then findPiece? p (pieces t) else none).map (·.prepend [c]) := by
    split
    · next hx => exact findPiece?_cons_separator (hc.resolve_right (absurd hx)) t
    · rfl
  have hnil : (if s.contextOf c = .code then findPiece? p (pieces []) else none) = none := by
    split <;> rfl
  have hnew (segs : List Segment) : findInSegments? p (⟨s.contextOf c, [c]⟩ :: segs) =
      (findInSegments? p segs).map (·.prepend [c]) := by
    rw [findInSegments?_cons]
    dsimp only
    rw [hfirst, hnil]
    rfl
  cases segs with
  | nil => exact hnew []
  | cons seg segs =>
    rw [consSegment]
    split
    · next h =>
      rw [findInSegments?_cons, findInSegments?_cons, ← h.1]
      dsimp only
      rw [hfirst, Option.map_or, Option.map_map, Option.map_map, Option.map_map]
      rfl
    · exact hnew _

lemma findFrom?_cons {c : Char} (hc : isSeparator c ∨ s.contextOf c ≠ .code) (t : Text) :
    findFrom? p s (c :: t) = (findFrom? p (s.next c) t).map (·.prepend [c]) :=
  findInSegments?_consSegment hc _

/-- A word in code is found, or passed over. -/
lemma findFrom?_word {w : Text} (hne : w ≠ []) (hw : ∀ c ∈ w, ¬ isSeparator c) {t : Text}
    (ht : atWordEnd t) :
    findFrom? p .code (w ++ t) =
      if p w then some ⟨[], w, t⟩ else (findFrom? p .code t).map (·.prepend w) := by
  obtain ⟨v, segs, hsegs, hflat, hcode⟩ := segmentsFrom_append hne hw t
  have hv : atWordEnd v := atWordEnd_of_append (hflat ▸ ht)
  have hlater : findFrom? p .code t =
      ((findPiece? p (pieces v)).map (·.append (segs.map Segment.text).flatten)).or
        ((findInSegments? p segs).map (·.prepend v)) := by
    rw [findFrom?]
    rcases hcode with hcode | ⟨rfl, hcode⟩
    · -- the segment of the word goes on with `v`
      rw [hcode, findInSegments?_cons, if_pos rfl]
    · -- the segment ends with the word
      rw [hcode]
      exact Option.map_id'.symm
  rw [hlater, findFrom?, hsegs, findInSegments?_cons, if_pos rfl, pieces_append hne hw hv,
    findPiece?, pieces_flatten]
  split
  · rw [← hflat]
    rfl
  · rw [Option.map_or, Option.map_map, Option.map_map, Option.map_map]
    simp only [Function.comp_def, WordSite.prepend_prepend]
    rfl

end

/-! ### Texts in a row -/

/-- A word may begin behind a text, if one may begin at the text. -/
def freshAfter : (fresh : Bool) → Text → Bool
  | fresh, []     => fresh
  | _,     c :: t => freshAfter (isSeparator c) t

lemma freshAfter_append (fresh : Bool) (t u : Text) :
    freshAfter fresh (t ++ u) = freshAfter (freshAfter fresh t) u := by
  induction t generalizing fresh with
  | nil => rfl
  | cons c t ih => exact ih _

/-- A word may begin behind nothing, and behind a separator. -/
lemma freshAfter_iff {t : Text} : freshAfter true t ↔ ∀ c ∈ t.getLast?, isSeparator c := by
  rcases List.eq_nil_or_concat t with rfl | ⟨t, c, rfl⟩
  · simp [freshAfter]
  · rw [List.concat_eq_append, freshAfter_append, List.getLast?_concat]
    simp [freshAfter]

lemma freshAfter_word {w : Text} (hne : w ≠ []) (hw : ∀ c ∈ w, ¬ isSeparator c) (fresh : Bool) :
    freshAfter fresh w = false := by
  induction w generalizing fresh with
  | nil => exact absurd rfl hne
  | cons c w ih =>
    rw [List.forall_mem_cons] at hw
    by_cases hw' : w = []
    · subst hw'
      exact eq_false_of_ne_true hw.1
    · exact ih hw' hw.2 _

lemma State.after_word {w : Text} (hw : ∀ c ∈ w, ¬ isSeparator c) : code.after w = .code := by
  induction w with
  | nil => rfl
  | cons c w ih =>
    rw [List.forall_mem_cons] at hw
    rw [after_cons, next_code hw.1, ih hw.2]

lemma atWordEnd_append {t u : Text} (ht : atWordEnd t) (hu : t = [] → atWordEnd u) :
    atWordEnd (t ++ u) := by
  cases t with
  | nil => exact hu rfl
  | cons c t => exact ht

section

variable {p : Text → Bool} {s : State} {fresh : Bool} {a b t : Text} {site : WordSite}

/-- A search through two texts in a row searches one and then the other, unless a word of code goes
on from one to the other. -/
lemma findFrom?_append (ha : Reading s fresh a)
    (h : s.after a = .code → freshAfter fresh a ∨ atWordEnd b) :
    findFrom? p s (a ++ b) =
      ((findFrom? p s a).map (·.append b)).or
        ((findFrom? p (s.after a) b).map (·.prepend a)) := by
  induction ha with
  | nil => exact Option.map_id'.symm
  | char hc _ ih =>
    rw [List.cons_append, findFrom?_cons hc, findFrom?_cons hc, ih h, Option.map_or,
      Option.map_map, Option.map_map, Option.map_map]
    rfl
  | @word w t hne hw hend _ ih =>
    rw [State.after_append, State.after_word hw, freshAfter_append, freshAfter_word hne hw] at h
    -- the hypothesis on `b` counts only where `t` is empty
    have hend' : atWordEnd (t ++ b) := by
      refine atWordEnd_append hend fun ht => ?_
      subst ht
      exact (h rfl).resolve_left Bool.false_ne_true
    rw [List.append_assoc, findFrom?_word hne hw hend', findFrom?_word hne hw hend,
      State.after_append, State.after_word hw]
    split
    · rfl
    · rw [ih h, Option.map_or, Option.map_map, Option.map_map, Option.map_map]
      simp only [Function.comp_def, WordSite.prepend_prepend]
      rfl

/-- What a search finds stands in code, where a word may begin, behind nothing else that could be
found. -/
structure IsFirst (p : Text → Bool) (s : State) (fresh : Bool) (site : WordSite) : Prop where
  accepted : p site.word
  code     : s.after site.before = .code
  fresh    : freshAfter fresh site.before
  before   : findFrom? p s site.before = none

lemma isFirst_of_findFrom? (ht : Reading s fresh t) (h : findFrom? p s t = some site) :
    IsFirst p s fresh site := by
  induction ht generalizing site with
  | nil => cases h
  | char hc _ ih =>
    rw [findFrom?_cons hc] at h
    obtain ⟨site', hsite, rfl⟩ := Option.map_eq_some_iff.mp h
    obtain ⟨hword, hcode, hfresh, hbefore⟩ := ih hsite
    refine ⟨hword, hcode, hfresh, ?_⟩
    show findFrom? p _ (_ :: site'.before) = none
    rw [findFrom?_cons hc, hbefore]
    rfl
  | @word w t hne hw hend _ ih =>
    rw [findFrom?_word hne hw hend] at h
    split at h
    · next hp =>
      cases h
      exact ⟨hp, rfl, rfl, rfl⟩
    · next hp =>
      obtain ⟨site', hsite, rfl⟩ := Option.map_eq_some_iff.mp h
      obtain ⟨hword, hcode, hfresh, hbefore⟩ := ih hsite
      -- `site'.before` is a beginning of `t`, which begins at the end of a word
      have hend' : atWordEnd site'.before := by
        have htext := (text_of_findInSegments? hsite).trans (segmentsFrom_flatten .code t)
        rw [← htext, WordSite.text, List.append_assoc] at hend
        exact atWordEnd_of_append hend
      refine ⟨hword, ?_, ?_, ?_⟩
      · show State.code.after (w ++ site'.before) = .code
        rw [State.after_append, State.after_word hw, hcode]
      · show freshAfter true (w ++ site'.before) = true
        rw [freshAfter_append, freshAfter_word hne hw, hfresh]
      · show findFrom? p _ (w ++ site'.before) = none
        rw [findFrom?_word hne hw hend', if_neg hp, hbefore]
        rfl

lemma isFirst_of_findInCode? (h : findInCode? p t = some site) : IsFirst p .code true site :=
  isFirst_of_findFrom? (reading_code t) h

end

/-! ### Replaced words -/

/-- The words in the code of a text. -/
def codeWords (t : Text) : List Text :=
  (segments t).flatMap fun seg =>
    if seg.context = .code then
      (pieces seg.text).filterMap fun
        | .word w      => some w
        | .separator _ => none
    else []

lemma mem_codeWords_iff {t w : Text} :
    w ∈ codeWords t ↔ ∃ seg ∈ segments t, seg.context = .code ∧ .word w ∈ pieces seg.text := by
  rw [codeWords, List.mem_flatMap]
  refine exists_congr fun seg => and_congr_right fun _ => ?_
  split
  · next hx =>
    rw [List.mem_filterMap]
    constructor
    · rintro ⟨_ | _, hpiece, h⟩
      · cases h
        exact ⟨hx, hpiece⟩
      · cases h
    · rintro ⟨-, hpiece⟩
      exact ⟨_, hpiece, rfl⟩
  · next hx => simp [hx]

lemma findPiece?_eq_none_iff {p : Text → Bool} {ps : List Piece} :
    findPiece? p ps = none ↔ ∀ w, .word w ∈ ps → ¬ p w := by
  induction ps with
  | nil => simp [findPiece?]
  | cons piece ps ih =>
    cases piece with
    | word w =>
      rw [findPiece?]
      split
      · next hw => simp [hw]
      · next hw => simp [hw, ih]
    | separator c => simp [findPiece?, ih]

lemma findInSegments?_eq_none_iff {p : Text → Bool} {segs : List Segment} :
    findInSegments? p segs = none ↔
      ∀ seg ∈ segs, seg.context = .code → findPiece? p (pieces seg.text) = none := by
  induction segs with
  | nil => simp [findInSegments?]
  | cons seg segs ih =>
    rw [findInSegments?_cons, Option.or_eq_none_iff, Option.map_eq_none_iff,
      Option.map_eq_none_iff, ih, List.forall_mem_cons, ite_eq_right_iff]

/-- Nothing is found exactly if no word in code is accepted. -/
lemma findInCode?_eq_none_iff {p : Text → Bool} {t : Text} :
    findInCode? p t = none ↔ ∀ w ∈ codeWords t, ¬ p w := by
  simp only [findInCode?, findInSegments?_eq_none_iff, findPiece?_eq_none_iff, mem_codeWords_iff]
  constructor
  · rintro h w ⟨seg, hseg, hx, hw⟩
    exact h seg hseg hx w hw
  · intro h seg hseg hx w hw
    exact h w ⟨seg, hseg, hx, hw⟩

/-- A text is replaced according to the words in its code. -/
lemma replaceInCode_congr {f g : Text → Text} {t : Text} (h : ∀ w ∈ codeWords t, f w = g w) :
    replaceInCode f t = replaceInCode g t := by
  refine List.flatMap_congr fun seg hseg => ?_
  by_cases hx : seg.context = .code
  · rw [if_pos hx, if_pos hx]
    refine replaceWords_congr fun w hw => h w (List.mem_flatMap.mpr ⟨seg, hseg, ?_⟩)
    rw [if_pos hx]
    exact List.mem_filterMap.mpr ⟨.word w, hw, rfl⟩
  · rw [if_neg hx, if_neg hx]

section

variable {p : Text → Bool} {f : Text → Text} {s : State} {fresh : Bool} {t : Text}

/-- A text that leaves no literal open, and in whose code there is nothing to be found. -/
structure Inert (p : Text → Bool) (t : Text) : Prop where
  closed   : State.code.after t = .code ∨ State.code.after t = .comment
  findNone : findInCode? p t = none

instance (p : Text → Bool) (t : Text) : Decidable (Inert p t) :=
  decidable_of_iff
    ((State.code.after t = .code ∨ State.code.after t = .comment) ∧ findInCode? p t = none)
    ⟨fun h => ⟨h.1, h.2⟩, fun h => ⟨h.closed, h.findNone⟩⟩

lemma findFrom?_comment (ht : '\n' ∉ t) : findFrom? p .comment t = none := by
  induction t with
  | nil => rfl
  | cons c t ih =>
    rw [List.mem_cons, not_or] at ht
    have hc : State.comment.contextOf c = .comment := if_neg (Ne.symm ht.1)
    have hnext : State.comment.next c = .comment := if_neg (Ne.symm ht.1)
    rw [findFrom?_cons (.inr (by rw [hc]; nofun)), hnext, ih ht.2]
    rfl

lemma atWordEnd_replaceInSegments (ht : atWordEnd t) :
    atWordEnd (replaceInSegments f (segmentsFrom s t)) := by
  cases t with
  | nil => rfl
  | cons c t =>
    have hc : isSeparator c = true := ht
    rw [segmentsFrom, replaceInSegments_consSegment f (.inl hc)]
    exact hc

/-- Where each word is kept, or gives way to a text without effect on what follows, there is nothing
more to be found than before. -/
lemma findFrom?_replaceInSegments (ht : Reading s fresh t) (hf : ∀ w, f w = w ∨ Inert p (f w))
    (hline : '\n' ∉ replaceInSegments f (segmentsFrom s t)) (h : findFrom? p s t = none) :
    findFrom? p s (replaceInSegments f (segmentsFrom s t)) = none := by
  induction ht with
  | nil => exact h
  | char hc _ ih =>
    rw [findFrom?_cons hc, Option.map_eq_none_iff] at h
    rw [segmentsFrom, replaceInSegments_consSegment f hc] at hline ⊢
    rw [List.mem_cons, not_or] at hline
    rw [findFrom?_cons hc, ih hline.2 h]
    rfl
  | @word w t hne hw hend _ ih =>
    rw [findFrom?_word hne hw hend] at h
    have hp : ¬ p w := by
      intro hp
      rw [if_pos hp] at h
      cases h
    rw [if_neg hp, Option.map_eq_none_iff] at h
    have hend' : atWordEnd (replaceInSegments f (segmentsFrom .code t)) :=
      atWordEnd_replaceInSegments hend
    rw [replaceInSegments_append f hne hw hend] at hline ⊢
    rw [List.mem_append, not_or] at hline
    have hlater := ih hline.2 h
    -- a word that is kept was passed over before; the other text leaves code or a comment behind
    rcases hf w with heq | hinert
    · rw [heq, findFrom?_word hne hw hend', if_neg hp, hlater]
      rfl
    · have hfirst : findFrom? p .code (f w) = none := hinert.findNone
      have hrest : findFrom? p (State.code.after (f w))
          (replaceInSegments f (segmentsFrom .code t)) = none := by
        rcases hinert.closed with hcode | hcomment
        · rw [hcode, hlater]
        · -- the comment takes the rest, there being no line feed
          rw [hcomment, findFrom?_comment hline.2]
      rw [findFrom?_append (reading_code (f w)) fun _ => .inr hend',
        hfirst, hrest]
      rfl

/-- Where each word in code is kept, or gives way to a text without effect on what follows, there is
nothing more to be found than before. -/
theorem findInCode?_replaceInCode (hf : ∀ w ∈ codeWords t, f w = w ∨ Inert p (f w))
    (hline : '\n' ∉ replaceInCode f t) (h : findInCode? p t = none) :
    findInCode? p (replaceInCode f t) = none := by
  let g : Text → Text := fun w => if w ∈ codeWords t then f w else w
  have hcongr : replaceInCode f t = replaceInCode g t :=
    replaceInCode_congr fun w hw => (if_pos hw).symm
  have hg : ∀ w, g w = w ∨ Inert p (g w) := by
    intro w
    by_cases hw : w ∈ codeWords t
    · rw [show g w = f w from if_pos hw]
      exact hf w hw
    · exact .inl (if_neg hw)
  rw [hcongr] at hline ⊢
  exact findFrom?_replaceInSegments (reading_code t) hg hline h

end

/-! ### Keywords -/

/-- The word is the keyword, in whatever case. -/
def spells : Text → Text → Bool
  | [],     w      => w.isEmpty
  | _ :: _, []     => false
  | a :: k, c :: w => isCaseOf a c && spells k w

/-- A keyword is not empty, and in no case has it a separator. -/
structure IsKeyword (k : Text) : Prop where
  ne_nil : k ≠ []
  not_isSeparator : ∀ a ∈ k, ∀ c, isCaseOf a c → ¬ isSeparator c

lemma isKeyword_of_separators {k : Text} (hne : k ≠ [])
    (h : ∀ c ∈ separators, ∀ a ∈ k, ¬ isCaseOf a c) : IsKeyword k := by
  refine ⟨hne, fun a ha c hcase hsep => h c ?_ a ha hcase⟩
  rw [isSeparator, List.contains_iff_mem] at hsep
  exact hsep

lemma cutKeyword?_of_separator {k t : Text} {c : Char} (hk : IsKeyword k) (hc : isSeparator c) :
    cutKeyword? k (c :: t) = none := by
  cases k with
  | nil => exact absurd rfl hk.ne_nil
  | cons a k => exact if_neg fun hcase => hk.not_isSeparator a List.mem_cons_self c hcase hc

/-- A keyword that is cut off at the end of a word is the word. -/
lemma filter_cutKeyword? {k : Text} (hk : ∀ a ∈ k, ∀ c, isCaseOf a c → ¬ isSeparator c) {w t : Text}
    (hw : ∀ c ∈ w, ¬ isSeparator c) (ht : atWordEnd t) :
    ((cutKeyword? k (w ++ t)).filter fun (_, rest) => atWordEnd rest) =
      if spells k w then some (w, t) else none := by
  induction k generalizing w with
  | nil =>
    cases w with
    | nil => simp [cutKeyword?, spells, ht, Option.filter]
    | cons c w =>
      have hc : ¬ isSeparator c := hw c List.mem_cons_self
      simp [cutKeyword?, spells, atWordEnd, Option.filter, hc]
  | cons a k ih =>
    rw [List.forall_mem_cons] at hk
    cases w with
    | nil =>
      cases t with
      | nil => rfl
      | cons c t =>
        have hc : ¬ isCaseOf a c := fun hcase => hk.1 c hcase ht
        simp [cutKeyword?, spells, hc]
    | cons c w =>
      rw [List.forall_mem_cons] at hw
      rw [List.cons_append, cutKeyword?, spells]
      by_cases hc : isCaseOf a c
      · rw [if_pos hc, hc, Bool.true_and, Option.filter_map]
        refine (congrArg (Option.map _) (ih hk.2 hw.2)).trans ?_
        split <;> rfl
      · rw [if_neg hc, eq_false_of_ne_true hc]
        rfl

section

variable {keywords : List Text} (hkeywords : ∀ k ∈ keywords, IsKeyword k)
include hkeywords

lemma keywordAt?_of_separator {c : Char} (hc : isSeparator c) (t : Text) :
    keywordAt? keywords (c :: t) = none := by
  rw [keywordAt?, List.findSome?_eq_none_iff]
  intro k hk
  rw [cutKeyword?_of_separator (hkeywords k hk) hc]
  rfl

lemma keywordAt?_word {w t : Text} (hw : ∀ c ∈ w, ¬ isSeparator c) (ht : atWordEnd t) :
    keywordAt? keywords (w ++ t) = if keywords.any (spells · w) then some (w, t) else none := by
  induction keywords with
  | nil => rfl
  | cons k keywords ih =>
    rw [List.forall_mem_cons] at hkeywords
    have hfirst := filter_cutKeyword? hkeywords.1.not_isSeparator hw ht
    have hlater := ih hkeywords.2
    rw [keywordAt?] at hlater ⊢
    rw [List.findSome?_cons, hfirst, List.any_cons]
    cases spells k w with
    | true => rfl
    | false => exact hlater

omit hkeywords in
/-- No keyword begins within a word. -/
lemma searchKeyword_withinWord {w : Text} (hw : ∀ c ∈ w, ¬ isSeparator c) (t : Text) :
    searchKeyword keywords .code false (w ++ t) =
      (searchKeyword keywords .code false t).map (·.prepend w) := by
  induction w with
  | nil => exact Option.map_id'.symm
  | cons c w ih =>
    rw [List.forall_mem_cons] at hw
    have hskip : searchKeyword keywords .code false (c :: (w ++ t)) =
        (searchKeyword keywords (State.code.next c) (isSeparator c) (w ++ t)).map
          (·.prepend [c]) := rfl
    rw [List.cons_append, hskip, State.next_code hw.1, eq_false_of_ne_true hw.1, ih hw.2,
      Option.map_map]
    rfl

/-- A keyword search is a search for a word that spells a keyword. -/
lemma searchKeyword_eq {s : State} {fresh : Bool} {t : Text} (h : Reading s fresh t) :
    searchKeyword keywords s fresh t =
      findFrom? (fun w => keywords.any (spells · w)) s t := by
  induction h with
  | nil => rfl
  | @char s fresh c t hc _ ih =>
    have hnone : (if fresh && s.contextOf c = .code then keywordAt? keywords (c :: t) else none) =
        none := by
      split
      · next hx =>
        rw [Bool.and_eq_true, decide_eq_true_eq] at hx
        -- in code `c` is a separator, at which no keyword begins
        exact keywordAt?_of_separator hkeywords (hc.resolve_right (absurd hx.2)) t
      · rfl
    rw [searchKeyword, hnone, findFrom?_cons hc, ih]
  | @word w t hne hw hend _ ih =>
    rw [findFrom?_word hne hw hend, ← ih]
    obtain ⟨c, w, rfl⟩ := List.exists_cons_of_ne_nil hne
    have hc : ¬ isSeparator c := hw c List.mem_cons_self
    have hat : (if true && State.code.contextOf c = .code then
        keywordAt? keywords (c :: (w ++ t)) else none) =
          if keywords.any (spells · (c :: w)) then some (c :: w, t) else none := by
      rw [State.contextOf_code hc]
      exact keywordAt?_word hkeywords hw hend
    rw [List.cons_append, searchKeyword, hat]
    cases keywords.any (spells · (c :: w)) with
    | true => rfl
    | false =>
      rw [List.forall_mem_cons] at hw
      rw [if_neg Bool.false_ne_true, if_neg Bool.false_ne_true]
      dsimp only
      rw [State.next_code hc, eq_false_of_ne_true hc, searchKeyword_withinWord hw.2,
        Option.map_map]
      rfl

/-- The first keyword of a line is the first word in its code that spells a keyword. -/
theorem findKeyword?_eq (line : Text) :
    findKeyword? keywords line = findInCode? (fun w => keywords.any (spells · w)) line :=
  searchKeyword_eq hkeywords (reading_code line)

end

end MipsAsm.Scan
