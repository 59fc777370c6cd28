import MipsAsm.Scan.Keyword
import Mathlib.Data.List.Basic
import Mathlib.Data.List.TakeWhile
import Mathlib.Tactic.Common

/-!
# Rewriting the words in code

`Rewritten f` says what it means to replace the words of a text that stand in code: each maximal run
of characters between separators gives way to what `f` makes of it, and all else is copied. What
takes the place of a word is not looked at again. `replaceInCode` rewrites every text in this sense
(`rewritten_replaceInCode`).
-/

namespace MipsAsm.Scan

/-- A text with the context of each character. -/
def marked (t : Text) : List (Char × Context) := t.zip (contexts t)

/-- The second text is the first one with its words in code replaced. `fresh` says that no word
character stands in front of the first text. -/
inductive Rewritten (f : Text → Text) : (fresh : Bool) → List (Char × Context) → Text → Prop where
  | nil {fresh : Bool} : Rewritten f fresh [] []
  /-- A separator, or a character of a literal or a comment. -/
  | copy {fresh : Bool} {c : Char} {x : Context} {t : List (Char × Context)} {u : Text}
      (hc : isSeparator c ∨ x ≠ .code) (ht : Rewritten f (isSeparator c) t u) :
      Rewritten f fresh ((c, x) :: t) (c :: u)
  /-- A word in code, up to the next separator. -/
  | word {w : Text} {t : List (Char × Context)} {u : Text}
      (hne : w ≠ []) (hw : ∀ c ∈ w, ¬ isSeparator c) (hend : ∀ p ∈ t.head?, isSeparator p.1)
      (ht : Rewritten f false t u) :
      Rewritten f true (w.map (·, .code) ++ t) (f w ++ u)

/-- A character that neither the text nor a replacement contains does not come into being. -/
lemma Rewritten.not_mem {f : Text → Text} {fresh : Bool} {t : List (Char × Context)} {u : Text}
    {c : Char} (h : Rewritten f fresh t u) (ht : ∀ p ∈ t, p.1 ≠ c)
    (hf : ∀ w, c ∉ w → c ∉ f w) : c ∉ u := by
  induction h with
  | nil => simp
  | copy _ _ ih =>
    rw [List.forall_mem_cons] at ht
    rw [List.mem_cons, not_or]
    exact ⟨Ne.symm ht.1, ih ht.2⟩
  | @word w t u _ _ _ _ ih =>
    rw [List.forall_mem_append] at ht
    rw [List.mem_append, not_or]
    refine ⟨hf w fun hc => ?_, ih ht.2⟩
    exact ht.1 (c, .code) (List.mem_map.mpr ⟨c, hc, rfl⟩) rfl

/-- A character of a literal or a comment is copied. -/
lemma Rewritten.of_copy {f : Text → Text} {fresh : Bool} {c : Char} {x : Context}
    {t : List (Char × Context)} {u : Text} (h : Rewritten f fresh ((c, x) :: t) u)
    (hx : x ≠ .code) : ∃ v, u = c :: v ∧ Rewritten f (isSeparator c) t v := by
  generalize ht : (c, x) :: t = t' at h
  cases h with
  | nil => cases ht
  | copy _ h =>
    cases ht
    exact ⟨_, rfl, h⟩
  | @word w _ _ hne _ _ _ =>
    cases w with
    | nil => exact absurd rfl hne
    | cons d w =>
      cases ht
      exact absurd rfl hx

/-! ### Pieces -/

lemma pieces_cons_separator {c : Char} (hc : isSeparator c) (t : Text) :
    pieces (c :: t) = .separator c :: pieces t := by
  show Piece.cons c (pieces t) = _
  unfold Piece.cons
  rw [if_pos hc]

lemma pieces_cons_word {c : Char} (hc : ¬ isSeparator c) {t w : Text} {ps : List Piece}
    (ht : pieces t = .word w :: ps) : pieces (c :: t) = .word (c :: w) :: ps := by
  show Piece.cons c (pieces t) = _
  unfold Piece.cons
  rw [if_neg hc, ht]

lemma pieces_cons_wordEnd {c : Char} (hc : ¬ isSeparator c) {t : Text} (ht : atWordEnd t) :
    pieces (c :: t) = .word [c] :: pieces t := by
  show Piece.cons c (pieces t) = _
  unfold Piece.cons
  rw [if_neg hc]
  cases t with
  | nil => rfl
  | cons d t => rw [pieces_cons_separator ht]

/-- A word that ends at a separator is a piece by itself. -/
lemma pieces_append {w v : Text} (hne : w ≠ []) (hw : ∀ c ∈ w, ¬ isSeparator c)
    (hv : atWordEnd v) : pieces (w ++ v) = .word w :: pieces v := by
  induction w with
  | nil => exact absurd rfl hne
  | cons c w ih =>
    rw [List.forall_mem_cons] at hw
    by_cases hw' : w = []
    · subst hw'
      exact pieces_cons_wordEnd hw.1 hv
    · exact pieces_cons_word hw.1 (ih hw' hw.2)

lemma replaceWords_append (f : Text → Text) {w v : Text} (hne : w ≠ [])
    (hw : ∀ c ∈ w, ¬ isSeparator c) (hv : atWordEnd v) :
    replaceWords f (w ++ v) = f w ++ replaceWords f v := by
  rw [replaceWords, pieces_append hne hw hv]
  rfl

lemma replaceWords_cons (f : Text → Text) {c : Char} (hc : isSeparator c) (t : Text) :
    replaceWords f (c :: t) = c :: replaceWords f t := by
  rw [replaceWords, pieces_cons_separator hc]
  rfl

lemma replaceWords_congr {f g : Text → Text} {t : Text}
    (h : ∀ w, .word w ∈ pieces t → f w = g w) : replaceWords f t = replaceWords g t := by
  refine List.flatMap_congr fun piece hpiece => ?_
  cases piece with
  | word w => exact h w hpiece
  | separator c => rfl

lemma not_mem_replaceWords {f : Text → Text} {c : Char} (hf : ∀ w, c ∉ w → c ∉ f w) {t : Text}
    (ht : c ∉ t) : c ∉ replaceWords f t := by
  intro hmem
  obtain ⟨piece, hpiece, hc⟩ := List.mem_flatMap.mp hmem
  have hsub : piece.text ⊆ t := by
    intro d hd
    rw [← pieces_flatten t]
    exact List.mem_flatten.mpr ⟨_, List.mem_map.mpr ⟨piece, hpiece, rfl⟩, hd⟩
  cases piece with
  | word w => exact hf w (fun hw => ht (hsub hw)) hc
  | separator d => exact ht (hsub hc)

/-! ### Segments -/

lemma ne_of_not_isSeparator {c d : Char} (hc : ¬ isSeparator c) (hd : isSeparator d) : c ≠ d := by
  rintro rfl
  exact hc hd

namespace State

lemma contextOf_code {c : Char} (hc : ¬ isSeparator c) : code.contextOf c = .code := by
  rw [contextOf, if_neg (ne_of_not_isSeparator hc rfl), if_neg (ne_of_not_isSeparator hc rfl),
    if_neg (ne_of_not_isSeparator hc rfl)]

lemma next_code {c : Char} (hc : ¬ isSeparator c) : code.next c = .code := by
  rw [next, if_neg (ne_of_not_isSeparator hc rfl), if_neg (ne_of_not_isSeparator hc rfl),
    if_neg (ne_of_not_isSeparator hc rfl)]

/-- Outside code only line feeds belong to code. -/
lemma eq_code_of_contextOf {s : State} {c : Char} (hc : ¬ isSeparator c)
    (h : s.contextOf c = .code) : s = .code := by
  have hn : c ≠ '\n' := ne_of_not_isSeparator hc rfl
  cases s with
  | code => rfl
  | comment => simp [contextOf, hn] at h
  | literal q => simp [contextOf, hn] at h
  | escaped q => simp [contextOf, hn] at h

/-- Literals and comments give way to code at a quote or a line feed. -/
lemma isSeparator_of_next_eq_code {s : State} {c : Char} (h : s.contextOf c ≠ .code)
    (hnext : s.next c = .code) : isSeparator c := by
  by_contra hc
  have hn : c ≠ '\n' := ne_of_not_isSeparator hc rfl
  cases s with
  | code => exact h (contextOf_code hc)
  | comment => simp [next, hn] at hnext
  | literal q =>
    have hq : c ≠ q.char := ne_of_not_isSeparator hc (by cases q <;> rfl)
    simp only [next, hn, hq, or_self, if_false] at hnext
    split at hnext <;> cases hnext
  | escaped q => simp [next, hn] at hnext

end State

/-- The text of segments with the words in code replaced. -/
def replaceInSegments (f : Text → Text) (segs : List Segment) : Text :=
  segs.flatMap fun seg => if seg.context = .code then replaceWords f seg.text else seg.text

/-- A character that belongs to no word in code is copied. -/
lemma replaceInSegments_consSegment (f : Text → Text) {s : State} {c : Char}
    (hc : isSeparator c ∨ s.contextOf c ≠ .code) (segs : List Segment) :
    replaceInSegments f (consSegment s c segs) = c :: replaceInSegments f segs := by
  have hnew : replaceInSegments f (⟨s.contextOf c, [c]⟩ :: segs) =
      c :: replaceInSegments f segs := by
    rw [replaceInSegments, List.flatMap_cons]
    by_cases hx : s.contextOf c = .code
    · rw [if_pos hx, replaceWords_cons f (hc.resolve_right (absurd hx))]
      rfl
    · rw [if_neg hx]
      rfl
  cases segs with
  | nil => exact hnew
  | cons seg segs =>
    rw [consSegment]
    split
    · next h =>
      rw [replaceInSegments, replaceInSegments, List.flatMap_cons, List.flatMap_cons, ← h.1]
      by_cases hx : s.contextOf c = .code
      · rw [if_pos hx, if_pos hx, replaceWords_cons f (hc.resolve_right (absurd hx))]
        rfl
      · rw [if_neg hx, if_neg hx]
        rfl
    · exact hnew

lemma consSegment_code {c : Char} (hc : ¬ isSeparator c) (v : Text) (segs : List Segment) :
    consSegment .code c (⟨.code, v⟩ :: segs) = ⟨.code, c :: v⟩ :: segs := by
  rw [consSegment, State.contextOf_code hc, if_pos ⟨rfl, .inl rfl⟩]

/-- A word in code stands in one segment, which may go on with code behind it. -/
lemma segmentsFrom_append {w : Text} (hne : w ≠ []) (hw : ∀ c ∈ w, ¬ isSeparator c) (t : Text) :
    ∃ v segs, segmentsFrom .code (w ++ t) = ⟨.code, w ++ v⟩ :: segs ∧
      v ++ (segs.map Segment.text).flatten = t ∧
      (segmentsFrom .code t = ⟨.code, v⟩ :: segs ∨ v = [] ∧ segmentsFrom .code t = segs) := by
  obtain ⟨v, segs, hsegs, ht⟩ : ∃ v segs, segmentsFrom .code (w ++ t) = ⟨.code, w ++ v⟩ :: segs ∧
      (segmentsFrom .code t = ⟨.code, v⟩ :: segs ∨ v = [] ∧ segmentsFrom .code t = segs) := by
    induction w with
    | nil => exact absurd rfl hne
    | cons c w ih =>
      rw [List.forall_mem_cons] at hw
      rw [List.cons_append, segmentsFrom, State.next_code hw.1]
      by_cases hw' : w = []
      · subst hw'
        rw [List.nil_append]
        -- the last character of the word: it joins the segment behind it, if that is of code
        rcases segmentsFrom .code t with _ | ⟨⟨x, v⟩, segs⟩
        · exact ⟨[], [], by rw [consSegment, State.contextOf_code hw.1]; rfl, .inr ⟨rfl, rfl⟩⟩
        · by_cases hx : x = .code
          · subst hx
            exact ⟨v, segs, consSegment_code hw.1 v segs, .inl rfl⟩
          · refine ⟨[], ⟨x, v⟩ :: segs, ?_, .inr ⟨rfl, rfl⟩⟩
            rw [consSegment, State.contextOf_code hw.1, if_neg fun h => hx h.1.symm]
            rfl
      · obtain ⟨v, segs, hsegs, ht⟩ := ih hw' hw.2
        exact ⟨v, segs, by rw [hsegs]; exact consSegment_code hw.1 _ segs, ht⟩
  refine ⟨v, segs, hsegs, ?_, ht⟩
  have hflat := segmentsFrom_flatten .code (w ++ t)
  rw [hsegs, List.map_cons, List.flatten_cons, List.append_assoc] at hflat
  exact List.append_cancel_left hflat

lemma atWordEnd_of_append {t u : Text} (h : atWordEnd (t ++ u)) : atWordEnd t := by
  cases t with
  | nil => rfl
  | cons c t => exact h

lemma replaceInSegments_append (f : Text → Text) {w : Text} (hne : w ≠ [])
    (hw : ∀ c ∈ w, ¬ isSeparator c) {t : Text} (ht : atWordEnd t) :
    replaceInSegments f (segmentsFrom .code (w ++ t)) =
      f w ++ replaceInSegments f (segmentsFrom .code t) := by
  obtain ⟨v, segs, hsegs, hflat, hcode⟩ := segmentsFrom_append hne hw t
  have hv : atWordEnd v := atWordEnd_of_append (hflat ▸ ht)
  rw [hsegs, replaceInSegments, List.flatMap_cons, if_pos rfl, replaceWords_append f hne hw hv,
    List.append_assoc]
  rcases hcode with hcode | ⟨rfl, hcode⟩
  · rw [hcode]
    rfl
  · rw [hcode]
    rfl

/-! ### Reading -/

lemma not_isSeparator_of_mem_firstWord {t : Text} {c : Char} (h : c ∈ firstWord t) :
    ¬ isSeparator c := by
  simpa using List.mem_takeWhile_imp h

lemma atWordEnd_afterWord (t : Text) : atWordEnd (afterWord t) := by
  have h := List.head?_dropWhile_not (fun c => !isSeparator c) t
  rw [afterWord]
  rcases hd : t.dropWhile fun c => !isSeparator c with _ | ⟨c, r⟩
  · rfl
  · rw [hd] at h
    simpa [atWordEnd] using h

lemma isSeparator_of_mem_head? {t : Text} (h : atWordEnd t) {c : Char} (hc : c ∈ t.head?) :
    isSeparator c := by
  cases t with
  | nil => cases hc
  | cons d t =>
    cases hc
    exact h

lemma firstWord_ne_nil {c : Char} (hc : ¬ isSeparator c) (t : Text) : firstWord (c :: t) ≠ [] := by
  simp [firstWord, hc]

lemma length_afterWord_lt {c : Char} (hc : ¬ isSeparator c) (t : Text) :
    (afterWord (c :: t)).length < (c :: t).length := by
  have := congrArg List.length (firstWord_append_afterWord (c :: t))
  rw [List.length_append] at this
  have := List.length_pos_iff.mpr (firstWord_ne_nil hc t)
  omega

lemma not_atWordEnd_word {w : Text} (hne : w ≠ []) (hw : ∀ c ∈ w, ¬ isSeparator c) (t : Text) :
    ¬ atWordEnd (w ++ t) := by
  obtain ⟨c, w, rfl⟩ := List.exists_cons_of_ne_nil hne
  exact hw c List.mem_cons_self

/-- A text is made of separators and of words that end at one of them or with the text. -/
@[elab_as_elim]
lemma word_induction {motive : Text → Prop} (nil : motive [])
    (separator : ∀ c t, isSeparator c → motive t → motive (c :: t))
    (word : ∀ w t, w ≠ [] → (∀ c ∈ w, ¬ isSeparator c) → atWordEnd t → motive t → motive (w ++ t)) :
    (t : Text) → motive t
  | []     => nil
  | c :: t => by
    by_cases hc : isSeparator c
    · exact separator c t hc (word_induction nil separator word t)
    · have hlt := length_afterWord_lt hc t
      rw [← firstWord_append_afterWord (c :: t)]
      exact word _ _ (firstWord_ne_nil hc t) (fun d => not_isSeparator_of_mem_firstWord)
        (atWordEnd_afterWord _) (word_induction nil separator word _)
termination_by t => t.length
decreasing_by
  · exact Nat.lt_succ_self _
  · exact hlt

/-- A text that is read from a state: word by word in code, and else character by character. `fresh`
says that no word goes on at its beginning. -/
inductive Reading : State → (fresh : Bool) → Text → Prop where
  | nil {s : State} {fresh : Bool} : Reading s fresh []
  | char {s : State} {fresh : Bool} {c : Char} {t : Text}
      (hc : isSeparator c ∨ s.contextOf c ≠ .code) (ht : Reading (s.next c) (isSeparator c) t) :
      Reading s fresh (c :: t)
  | word {w t : Text} (hne : w ≠ []) (hw : ∀ c ∈ w, ¬ isSeparator c) (hend : atWordEnd t)
      (ht : Reading .code false t) : Reading .code true (w ++ t)

/-- A text can be read, if a word may begin at it or if it goes on with no word. -/
lemma reading (s : State) (fresh : Bool) (t : Text) (h : s = .code → fresh ∨ atWordEnd t) :
    Reading s fresh t := by
  match t with
  | [] => exact .nil
  | c :: t =>
    by_cases hc : isSeparator c ∨ s.contextOf c ≠ .code
    · -- a literal or comment is left by a separator only
      refine .char hc (reading _ _ t fun hnext => ?_)
      exact .inl (hc.elim id fun hx => State.isSeparator_of_next_eq_code hx hnext)
    · push Not at hc
      -- a word begins here, since none can go on
      have hs := State.eq_code_of_contextOf hc.1 hc.2
      subst hs
      have hfresh : fresh = true := (h rfl).resolve_right hc.1
      subst hfresh
      have hlt := length_afterWord_lt hc.1 t
      have hend := atWordEnd_afterWord (c :: t)
      rw [← firstWord_append_afterWord (c :: t)]
      exact .word (firstWord_ne_nil hc.1 t) (fun d => not_isSeparator_of_mem_firstWord) hend
        (reading _ _ _ fun _ => .inr hend)
termination_by t.length
decreasing_by
  · exact Nat.lt_succ_self _
  · exact hlt

lemma reading_code (t : Text) : Reading .code true t := reading .code true t fun _ => .inl rfl

/-! ### Texts -/

lemma zip_contextsFrom_append {w : Text} (hw : ∀ c ∈ w, ¬ isSeparator c) (t : Text) :
    (w ++ t).zip (contextsFrom .code (w ++ t)) =
      w.map (·, .code) ++ t.zip (contextsFrom .code t) := by
  induction w with
  | nil => rfl
  | cons c w ih =>
    rw [List.forall_mem_cons] at hw
    rw [List.cons_append, contextsFrom, State.contextOf_code hw.1, State.next_code hw.1,
      List.zip_cons_cons, ih hw.2]
    rfl

/-- A text that can be read from a state is rewritten. -/
lemma rewritten_replaceInSegments (f : Text → Text) {s : State} {fresh : Bool} {t : Text}
    (h : Reading s fresh t) :
    Rewritten f fresh (t.zip (contextsFrom s t)) (replaceInSegments f (segmentsFrom s t)) := by
  induction h with
  | nil => exact .nil
  | char hc _ ih =>
    rw [segmentsFrom, replaceInSegments_consSegment f hc]
    exact .copy hc ih
  | @word w t hne hw hend _ ih =>
    rw [zip_contextsFrom_append hw, replaceInSegments_append f hne hw hend]
    refine .word hne hw ?_ ih
    intro p hp
    -- what follows the word, if anything, is a separator
    cases t with
    | nil => cases hp
    | cons d t =>
      cases hp
      exact hend

lemma replaceWords_id (t : Text) : replaceWords (fun w => w) t = t := by
  calc replaceWords (fun w => w) t
    _ = (pieces t).flatMap Piece.text := List.flatMap_congr fun piece _ => by cases piece <;> rfl
    _ = t := pieces_flatten t

/-- Words that are replaced by themselves leave a text as it is. -/
lemma replaceInCode_id (t : Text) : replaceInCode (fun w => w) t = t := by
  calc replaceInCode (fun w => w) t
    _ = (segments t).flatMap Segment.text := List.flatMap_congr fun seg _ => by
      rw [replaceWords_id]
      split <;> rfl
    _ = t := segments_flatten t

/-- The words in the code of a text are replaced, and all else is copied. -/
theorem rewritten_replaceInCode (f : Text → Text) (t : Text) :
    Rewritten f true (marked t) (replaceInCode f t) :=
  rewritten_replaceInSegments f (reading_code t)

lemma not_mem_replaceInCode {f : Text → Text} {c : Char} (hf : ∀ w, c ∉ w → c ∉ f w) {t : Text}
    (ht : c ∉ t) : c ∉ replaceInCode f t := by
  refine (rewritten_replaceInCode f t).not_mem (fun p hp => ?_) hf
  rintro rfl
  exact ht (List.of_mem_zip hp).1

/-! ### Words and segments -/

/-- Within a word the context does not change. -/
lemma State.contextOf_next {s : State} {c d : Char} (hc : ¬ isSeparator c)
    (hd : ¬ isSeparator d) : (s.next c).contextOf d = s.contextOf c := by
  have hcn : c ≠ '\n' := ne_of_not_isSeparator hc rfl
  have hdn : d ≠ '\n' := ne_of_not_isSeparator hd rfl
  cases s with
  | code => rw [next_code hc, contextOf_code hd, contextOf_code hc]
  | comment => simp [next, contextOf, hcn, hdn]
  | literal q =>
    have hq : c ≠ q.char := ne_of_not_isSeparator hc (by cases q <;> rfl)
    rw [next, if_neg (by simp [hcn, hq])]
    split <;> simp [contextOf, hcn, hdn]
  | escaped q => simp [next, contextOf, hcn, hdn]

/-- The first segment has the context of the first character, and it is not empty. -/
lemma first_of_consSegment {s : State} {c : Char} {segs segs' : List Segment} {seg : Segment}
    (h : consSegment s c segs = seg :: segs') : seg.context = s.contextOf c ∧ seg.text ≠ [] := by
  cases segs with
  | nil =>
    cases h
    exact ⟨rfl, List.cons_ne_nil _ _⟩
  | cons seg' segs =>
    rw [consSegment] at h
    split at h
    · next hjoin =>
      cases h
      exact ⟨hjoin.1.symm, List.cons_ne_nil _ _⟩
    · cases h
      exact ⟨rfl, List.cons_ne_nil _ _⟩

lemma Piece.cons_append {c : Char} {ps : List Piece} (h : ps ≠ []) (qs : List Piece) :
    cons c (ps ++ qs) = cons c ps ++ qs := by
  unfold cons
  split
  · rfl
  · rcases ps with _ | ⟨_ | _, ps⟩
    · exact absurd rfl h
    · rfl
    · rfl

lemma pieces_ne_nil {t : Text} (h : t ≠ []) : pieces t ≠ [] := by
  intro hnil
  have := pieces_flatten t
  rw [hnil] at this
  exact h this.symm

/-- The words and separators of a text are those of its segments. -/
lemma flatMap_pieces_segmentsFrom (s : State) (t : Text) :
    (segmentsFrom s t).flatMap (fun seg => pieces seg.text) = pieces t := by
  induction t generalizing s with
  | nil => rfl
  | cons c t ih =>
    have hpieces : pieces (c :: t) = Piece.cons c (pieces t) := rfl
    have ih := ih (s.next c)
    rw [segmentsFrom]
    cases hsegs : segmentsFrom (s.next c) t with
    | nil =>
      rw [hsegs] at ih
      rw [hpieces, ← ih, consSegment, List.flatMap_singleton]
      rfl
    | cons seg segs =>
      rw [hsegs, List.flatMap_cons] at ih
      obtain ⟨d, t, rfl⟩ : ∃ d u, t = d :: u :=
        List.exists_cons_of_ne_nil (by rintro rfl; cases hsegs)
      obtain ⟨hcontext, hne⟩ := first_of_consSegment hsegs
      rw [consSegment]
      split
      · rw [List.flatMap_cons, hpieces, ← ih, Piece.cons_append (pieces_ne_nil hne)]
        rfl
      · next hcut =>
        rw [List.flatMap_cons, List.flatMap_cons, ih]
        by_cases hc : isSeparator c
        · rw [pieces_cons_separator hc, pieces_cons_separator hc]
          rfl
        · -- a word that went on here would be in one segment
          have hend : atWordEnd (d :: t) := by
            show isSeparator d
            by_contra hd
            have hsame := State.contextOf_next (s := s) hc hd
            rw [not_and, not_or, not_not] at hcut
            obtain ⟨hx, hnext⟩ := hcut (hsame.symm.trans hcontext.symm)
            exact hc (State.isSeparator_of_next_eq_code hx hnext)
          rw [pieces_cons_wordEnd hc hend]
          exact congrArg (· ++ pieces (d :: t)) (pieces_cons_wordEnd (t := []) hc rfl)

/-- Where what stands in literals and comments is replaced by itself, it makes no difference that it
is not left out. -/
lemma replaceWords_eq_replaceInCode {f : Text → Text} {t : Text}
    (h : ∀ seg ∈ segments t, seg.context ≠ .code → ∀ w, .word w ∈ pieces seg.text → f w = w) :
    replaceWords f t = replaceInCode f t := by
  rw [replaceWords, ← flatMap_pieces_segmentsFrom .code t, List.flatMap_assoc, replaceInCode]
  refine List.flatMap_congr fun seg hseg => ?_
  by_cases hx : seg.context = .code
  · rw [if_pos hx]
    rfl
  · rw [if_neg hx]
    calc replaceWords f seg.text
      _ = replaceWords (fun w => w) seg.text := replaceWords_congr (h seg hseg hx)
      _ = seg.text := replaceWords_id seg.text

/-- All words of a text are replaced, as they are in code. -/
lemma rewritten_replaceWords (f : Text → Text) (fresh : Bool) (t : Text)
    (h : fresh ∨ atWordEnd t) : Rewritten f fresh (t.map (·, .code)) (replaceWords f t) := by
  induction t using word_induction generalizing fresh with
  | nil => exact .nil
  | separator c t hc ih =>
    rw [replaceWords_cons f hc]
    exact .copy (.inl hc) (ih _ (.inl hc))
  | word w t hne hw hend ih =>
    have hfresh : fresh = true := h.resolve_right (not_atWordEnd_word hne hw t)
    subst hfresh
    rw [List.map_append, replaceWords_append f hne hw hend]
    refine .word hne hw (fun p hp => ?_) (ih false (.inr hend))
    rw [List.head?_map] at hp
    obtain ⟨d, hd, rfl⟩ := Option.map_eq_some_iff.mp hp
    exact isSeparator_of_mem_head? hend hd

end MipsAsm.Scan
