import MipsAsm.Proofs.Operand.Literals
import MipsAsm.Proofs.Scan.Context
import MipsAsm.Proofs.Scan.Line

/-!
# Segments partition a text

The segments of a text are its comments, its literals and the stretches of code between them.
`IsSegment` says what each of these looks like with the text behind it, without the automaton; a
text that begins with such a stretch has it as its first segment (`IsSegment.segmentsFrom_append`),
and every text begins with one (`exists_isSegment`). The places of the segments tile the text, and
bisection over their beginnings finds the tile around a position (`Tiles.contextAt_of_mem`):
`spans_partition`.
-/

namespace MipsAsm.Scan

/-! ### Stretches of one context -/

/-- A stretch of a text in front of the rest of the text. -/
inductive IsSegment : Context → (text after : Text) → Prop where
  /-- Code goes up to the next quote or comment sign. -/
  | code {w after : Text} (hne : w ≠ []) (hw : ∀ c ∈ w, IsPlain c)
      (hafter : ∀ c ∈ after.head?, ¬ IsPlain c) : IsSegment .code w after
  /-- A comment goes up to the end of its line. -/
  | comment {line after : Text} (hline : '\n' ∉ line) (hafter : ∀ c ∈ after.head?, c = '\n') :
      IsSegment .comment ('#' :: line) after
  /-- A literal goes up to the first quote that no backslash takes. -/
  | closed {q : Quote} {body after : Text} (hbody : ClosedBody q body) :
      IsSegment (.literal q) (q.char :: (body ++ [q.char])) after
  /-- A literal without such a quote on its line goes up to the end of the line. -/
  | unclosed {q : Quote} {line after : Text} (hline : '\n' ∉ line)
      (hopen : ∀ body r, line = body ++ q.char :: r → ¬ ClosedBody q body)
      (hafter : ∀ c ∈ after.head?, c = '\n') : IsSegment (.literal q) (q.char :: line) after

lemma IsSegment.ne_nil {x : Context} {w after : Text} (h : IsSegment x w after) : w ≠ [] := by
  cases h with
  | code hne _ _ => exact hne
  | comment _ _ => exact List.cons_ne_nil _ _
  | closed _ => exact List.cons_ne_nil _ _
  | unclosed _ _ _ => exact List.cons_ne_nil _ _

lemma exists_quote_of_not_isPlain {c : Char} (hc : ¬ IsPlain c) (hcomment : c ≠ '#') :
    ∃ q : Quote, c = q.char := by
  by_cases hdouble : c = '"'
  · exact ⟨.double, hdouble⟩
  by_cases hsingle : c = '\''
  · exact ⟨.single, hsingle⟩
  · exact absurd ⟨hcomment, hdouble, hsingle⟩ hc

lemma newline_not_mem_restOfLine (t : Text) : '\n' ∉ restOfLine t := by
  intro hmem
  simpa using List.mem_takeWhile_imp hmem

lemma head?_afterLine (t : Text) : ∀ c ∈ (afterLine t).head?, c = '\n' := by
  intro c hc
  have hstop := List.head?_dropWhile_not (· ≠ '\n') t
  rw [afterLine] at hc
  rw [hc] at hstop
  simpa using hstop

/-- Every text begins with a stretch of one context. -/
lemma exists_isSegment {t : Text} (ht : t ≠ []) :
    ∃ x w after, t = w ++ after ∧ IsSegment x w after := by
  obtain ⟨c, r, rfl⟩ := List.exists_cons_of_ne_nil ht
  have hsplit := restOfLine_append_afterLine r
  by_cases hplain : IsPlain c
  · have hcode : (c :: r).takeWhile (IsPlain ·) = c :: r.takeWhile (IsPlain ·) :=
      List.takeWhile_cons_of_pos (decide_eq_true hplain)
    refine ⟨.code, (c :: r).takeWhile (IsPlain ·), (c :: r).dropWhile (IsPlain ·),
      List.takeWhile_append_dropWhile.symm, .code ?_ ?_ ?_⟩
    · rw [hcode]
      exact List.cons_ne_nil _ _
    · intro d hd
      simpa using List.mem_takeWhile_imp hd
    · intro d hd
      have hstop := List.head?_dropWhile_not (IsPlain ·) (c :: r)
      rw [hd] at hstop
      simpa using hstop
  by_cases hcomment : c = '#'
  · subst hcomment
    exact ⟨.comment, '#' :: restOfLine r, afterLine r, by rw [List.cons_append, hsplit],
      .comment (newline_not_mem_restOfLine r) (head?_afterLine r)⟩
  obtain ⟨q, rfl⟩ := exists_quote_of_not_isPlain hplain hcomment
  by_cases hclosed : ∃ body rest, r = body ++ q.char :: rest ∧ ClosedBody q body
  · obtain ⟨body, rest, rfl, hbody⟩ := hclosed
    exact ⟨.literal q, q.char :: (body ++ [q.char]), rest, by simp, .closed hbody⟩
  · refine ⟨.literal q, q.char :: restOfLine r, afterLine r, by rw [List.cons_append, hsplit],
      .unclosed (newline_not_mem_restOfLine r) (fun body rest hline hbody => ?_)
        (head?_afterLine r)⟩
    refine hclosed ⟨body, rest ++ afterLine r, ?_, hbody⟩
    rw [hline, List.append_assoc, List.cons_append] at hsplit
    exact hsplit.symm

/-! ### Stretches outside code -/

namespace State

/-- What a state is inside of. -/
def inside : State → Context
  | .code      => .code
  | .comment   => .comment
  | .literal q => .literal q
  | .escaped q => .literal q

variable {s : State} {c : Char}

lemma inside_ne_code (hs : s ≠ .code) : s.inside ≠ .code := by
  cases s with
  | code => exact absurd rfl hs
  | comment | literal q | escaped q => nofun

lemma contextOf_eq_inside (hs : s ≠ .code) (hc : c ≠ '\n') : s.contextOf c = s.inside := by
  cases s with
  | code => exact absurd rfl hs
  | comment | literal q | escaped q => exact if_neg hc

/-- A step that does not lead back to code stays inside of the same. -/
lemma inside_next (hs : s ≠ .code) (hnext : s.next c ≠ .code) : (s.next c).inside = s.inside := by
  cases s with
  | code => exact absurd rfl hs
  | comment | literal q | escaped q =>
    rw [next] at hnext ⊢
    split_ifs at hnext ⊢ <;> first | rfl | exact absurd rfl hnext

/-- A state that is left from code by a quote or a comment sign begins with its first character. -/
lemma contextOf_code_eq_inside (c : Char) : code.contextOf c = (code.next c).inside := by
  rw [contextOf, next]
  split_ifs <;> rfl

lemma contextOf_newline (s : State) : s.contextOf '\n' = .code := by
  cases s <;> simp [contextOf]

lemma isPlain_of_contextOf (hc : code.contextOf c = .code) : IsPlain c := by
  rw [contextOf] at hc
  split_ifs at hc with hcomment hdouble hsingle
  exact ⟨hcomment, hdouble, hsingle⟩

lemma after_comment {t : Text} (ht : '\n' ∉ t) : comment.after t = .comment := by
  induction t with
  | nil => rfl
  | cons c t ih =>
    rw [List.mem_cons, not_or] at ht
    rw [after_cons, next, if_neg (Ne.symm ht.1), ih ht.2]

/-- A literal that is left on its line has been closed. -/
lemma exists_closedBody (q : Quote) : (t : Text) → '\n' ∉ t → (literal q).after t = .code →
    ∃ body rest, t = body ++ q.char :: rest ∧ ClosedBody q body
  | [], _, hcode => absurd hcode (literal_ne_code q)
  | c :: r, hline, hcode => by
    have hr : '\n' ∉ r := fun hmem => hline (List.mem_cons_of_mem c hmem)
    have hc : c ≠ '\n' := fun hc => hline (hc ▸ List.mem_cons_self)
    by_cases hquote : c = q.char
    · exact ⟨[], r, by rw [hquote, List.nil_append], .nil⟩
    by_cases hescape : c = '\\'
    · subst hescape
      rw [after_cons, next_backslash] at hcode
      cases r with
      | nil => exact absurd hcode (escaped_ne_code q)
      | cons d r =>
        rw [List.mem_cons, not_or] at hr
        rw [after_cons, next_escaped (Ne.symm hr.1)] at hcode
        obtain ⟨body, rest, rfl, hbody⟩ := exists_closedBody q r hr.2 hcode
        exact ⟨'\\' :: d :: body, rest, rfl, .escape (Ne.symm hr.1) hbody⟩
    · rw [after_cons, next_literal hquote hescape hc] at hcode
      obtain ⟨body, rest, rfl, hbody⟩ := exists_closedBody q r hr hcode
      exact ⟨c :: body, rest, rfl, .char hquote hescape hc hbody⟩

end State

lemma head?_consSegment (s : State) (c : Char) (segs : List Segment) :
    ∃ w segs', consSegment s c segs = ⟨s.contextOf c, w⟩ :: segs' := by
  cases segs with
  | nil => exact ⟨_, _, rfl⟩
  | cons seg segs =>
    rw [consSegment]
    split
    · next h => exact ⟨_, _, by rw [h.1]⟩
    · exact ⟨_, _, rfl⟩

/-- A character does not join a segment of another context. -/
lemma consSegment_of_ne {s : State} {c : Char} {segs : List Segment}
    (h : ∀ seg ∈ segs.head?, s.contextOf c ≠ seg.context) :
    consSegment s c segs = ⟨s.contextOf c, [c]⟩ :: segs := by
  cases segs with
  | nil => rfl
  | cons seg segs => exact if_neg fun hjoin => h seg rfl hjoin.1

/-- The first segment has the context of the first character. -/
lemma head?_segmentsFrom {s : State} {t : Text} :
    ∀ seg ∈ (segmentsFrom s t).head?, ∃ c ∈ t.head?, seg.context = s.contextOf c := by
  cases t with
  | nil => nofun
  | cons c t =>
    obtain ⟨w, segs, hsegs⟩ := head?_consSegment s c (segmentsFrom (s.next c) t)
    rw [segmentsFrom, hsegs]
    rintro seg ⟨⟩
    exact ⟨c, rfl, rfl⟩

/-- At the end of a line every state reads as code does. -/
lemma segmentsFrom_lineEnd (s : State) {t : Text} (ht : ∀ c ∈ t.head?, c = '\n') :
    segmentsFrom s t = segmentsFrom .code t := by
  cases t with
  | nil => rfl
  | cons c t =>
    obtain rfl := ht c rfl
    have hjoin (s s' : State) (segs : List Segment) :
        consSegment s '\n' segs = consSegment s' '\n' segs := by
      cases segs with
      | nil => rw [consSegment, consSegment, s.contextOf_newline, s'.contextOf_newline]
      | cons seg segs =>
        rw [consSegment, consSegment, s.contextOf_newline, s'.contextOf_newline, s.next_newline,
          s'.next_newline]
    rw [segmentsFrom, segmentsFrom, s.next_newline, State.next_newline, hjoin]

/-- What stays outside code up to the end of its line is one segment. -/
lemma segmentsFrom_outside {s : State} {c : Char} {line after : Text}
    (hcontext : s.contextOf c = (s.next c).inside)
    (hstay : ∀ w, w <+: line → (s.next c).after w ≠ .code) (hafter : ∀ c ∈ after.head?, c = '\n') :
    segmentsFrom s (c :: (line ++ after)) =
      ⟨(s.next c).inside, c :: line⟩ :: segmentsFrom .code after := by
  have hopen : s.next c ≠ .code := hstay [] List.nil_prefix
  induction line generalizing s c with
  | nil =>
    rw [List.nil_append, segmentsFrom, segmentsFrom_lineEnd _ hafter, consSegment_of_ne, hcontext]
    intro seg hseg
    obtain ⟨d, hd, hcode⟩ := head?_segmentsFrom seg hseg
    rw [hcode, hafter d hd, State.contextOf_newline, hcontext]
    exact State.inside_ne_code hopen
  | cons d line ih =>
    have hstay' (w : Text) (hw : w <+: line) : ((s.next c).next d).after w ≠ .code :=
      hstay (d :: w) ((List.prefix_cons_inj d).mpr hw)
    have hopen' : (s.next c).next d ≠ .code := hstay' [] List.nil_prefix
    have hd : d ≠ '\n' := by
      rintro rfl
      exact hopen' (State.next_newline _)
    have hinside := State.inside_next hopen hopen'
    have hd' := State.contextOf_eq_inside hopen hd
    rw [List.cons_append, segmentsFrom, ih (hd'.trans hinside.symm) hstay' hopen', hinside,
      consSegment, if_pos ⟨hcontext, .inr hopen⟩]

/-! ### Segments of a text -/

lemma segmentsFrom_plain {w after : Text} (hne : w ≠ []) (hw : ∀ c ∈ w, IsPlain c)
    (hafter : ∀ c ∈ after.head?, ¬ IsPlain c) :
    segmentsFrom .code (w ++ after) = ⟨.code, w⟩ :: segmentsFrom .code after := by
  induction w with
  | nil => exact absurd rfl hne
  | cons c w ih =>
    rw [List.forall_mem_cons] at hw
    rw [List.cons_append, segmentsFrom, hw.1.next]
    by_cases hlast : w = []
    · subst hlast
      rw [List.nil_append, consSegment_of_ne, hw.1.contextOf]
      intro seg hseg
      obtain ⟨d, hd, hcontext⟩ := head?_segmentsFrom seg hseg
      rw [hcontext, hw.1.contextOf]
      exact fun hcode => hafter d hd (State.isPlain_of_contextOf hcode.symm)
    · rw [ih hlast hw.2, consSegment, if_pos ⟨hw.1.contextOf, .inl hw.1.contextOf⟩]

/-- A stretch of one context at the beginning of a text is its first segment. -/
lemma IsSegment.segmentsFrom_append {x : Context} {w after : Text} (h : IsSegment x w after) :
    segmentsFrom .code (w ++ after) = ⟨x, w⟩ :: segmentsFrom .code after := by
  cases h with
  | code hne hw hafter => exact segmentsFrom_plain hne hw hafter
  | @comment line _ hline hafter =>
    have hstay (w : Text) (hw : w <+: line) : (State.code.next '#').after w ≠ .code := by
      have hcomment := State.after_comment fun hmem => hline (hw.subset hmem)
      exact fun hcode => nomatch hcomment.symm.trans hcode
    exact segmentsFrom_outside (State.contextOf_code_eq_inside '#') hstay hafter
  | @closed q body _ hbody =>
    have hclosed := hbody.segmentsFrom_code after
    simpa using hclosed
  | @unclosed q line _ hline hopen hafter =>
    have hstay (w : Text) (hw : w <+: line) : (State.code.next q.char).after w ≠ .code := by
      rw [State.next_open]
      intro hcode
      obtain ⟨r, rfl⟩ := hw
      obtain ⟨body, rest, rfl, hbody⟩ :=
        State.exists_closedBody q w (fun hmem => hline (List.mem_append_left r hmem)) hcode
      exact hopen body (rest ++ r) (by simp) hbody
    have hsegs := segmentsFrom_outside (State.contextOf_code_eq_inside q.char) hstay hafter
    rw [State.next_open] at hsegs
    exact hsegs

/-- The segments cover the text. -/
inductive Covers : Text → List Segment → Prop where
  | nil : Covers [] []
  | cons {x : Context} {w after : Text} {segs : List Segment} (h : IsSegment x w after)
      (hafter : Covers after segs) : Covers (w ++ after) (⟨x, w⟩ :: segs)

lemma covers_segments (t : Text) : Covers t (segments t) := by
  induction hn : t.length using Nat.strong_induction_on generalizing t with
  | _ n ih =>
    by_cases ht : t = []
    · subst ht
      exact .nil
    · obtain ⟨x, w, after, rfl, h⟩ := exists_isSegment ht
      have hlt : after.length < n := by
        rw [← hn, List.length_append]
        exact Nat.lt_add_of_pos_left (List.length_pos_of_ne_nil h.ne_nil)
      rw [segments, h.segmentsFrom_append]
      exact .cons h (ih _ hlt after rfl)

/-! ### Places -/

/-- The stretch of a text in a place. -/
def Span.slice (s : Span) (t : Text) : Text := (t.take s.stop).drop s.first

/-- The place is around the position. -/
def Span.Contains (s : Span) (pos : Nat) : Prop := s.first ≤ pos ∧ pos < s.stop

/-- The places stand side by side from one position up to another one, none of them empty. -/
inductive Tiles : (first stop : Nat) → List Span → Prop where
  | nil {pos : Nat} : Tiles pos pos []
  | cons {x : Context} {a b c : Nat} {spans : List Span} (hlt : a < b) (h : Tiles b c spans) :
      Tiles a c (⟨x, a, b⟩ :: spans)

namespace Tiles

variable {a b pos : Nat} {spans : List Span} {s : Span}

lemma le (h : Tiles a b spans) : a ≤ b := by
  induction h with
  | nil => exact Nat.le_refl _
  | cons hlt _ ih => exact Nat.le_trans (Nat.le_of_lt hlt) ih

lemma eq_nil_iff (h : Tiles a b spans) : spans = [] ↔ a = b := by
  cases h with
  | nil => simp
  | cons hlt h =>
    have := h.le
    simp
    omega

lemma le_first (h : Tiles a b spans) : ∀ s ∈ spans, a ≤ s.first := by
  induction h with
  | nil => nofun
  | cons hlt _ ih =>
    rw [List.forall_mem_cons]
    exact ⟨Nat.le_refl _, fun s hs => Nat.le_trans (Nat.le_of_lt hlt) (ih s hs)⟩

/-- A place begins before it ends, and ends no later than the last one. -/
lemma first_lt_stop (h : Tiles a b spans) : ∀ s ∈ spans, s.first < s.stop ∧ s.stop ≤ b := by
  induction h with
  | nil => nofun
  | cons hlt h ih => exact List.forall_mem_cons.mpr ⟨⟨hlt, h.le⟩, ih⟩

/-- Each place ends no later than those behind it begin. -/
lemma pairwise (h : Tiles a b spans) : spans.Pairwise fun s s' => s.stop ≤ s'.first := by
  induction h with
  | nil => exact .nil
  | cons _ h ih => exact List.pairwise_cons.mpr ⟨h.le_first, ih⟩

/-- Around each position stands exactly one of the places. -/
lemma existsUnique (h : Tiles a b spans) (hfirst : a ≤ pos) (hstop : pos < b) :
    ∃ s, (s ∈ spans ∧ s.Contains pos) ∧ ∀ s' ∈ spans, s'.Contains pos → s' = s := by
  induction h with
  | nil => exact absurd hstop (Nat.not_lt.mpr hfirst)
  | @cons x a b c spans hlt h ih =>
    by_cases hpos : pos < b
    · refine ⟨⟨x, a, b⟩, ⟨List.mem_cons_self, hfirst, hpos⟩, fun s' hs' hcontains => ?_⟩
      rcases List.mem_cons.mp hs' with rfl | hs'
      · rfl
      · have hle := Nat.le_trans (h.le_first s' hs') hcontains.1
        exact absurd hpos (Nat.not_lt.mpr hle)
    · obtain ⟨s, ⟨hs, hcontains⟩, hunique⟩ := ih (Nat.not_lt.mp hpos) hstop
      refine ⟨s, ⟨List.mem_cons_of_mem _ hs, hcontains⟩, fun s' hs' hcontains' => ?_⟩
      rcases List.mem_cons.mp hs' with rfl | hs'
      · exact absurd hcontains'.2 hpos
      · exact hunique s' hs' hcontains'

end Tiles

/-! ### The place around a position -/

/-- The upper bound of a number stands between what it bounds and what exceeds it. -/
lemma upperBound_append {low high : List Nat} {x : Nat} (hlow : ∀ n ∈ low, n ≤ x)
    (hhigh : ∀ n ∈ high, x < n) :
    upperBound (low ++ high).toArray x 0 (low ++ high).length = low.length := by
  have hgetD (i : Nat) : (low ++ high).toArray.getD i 0 = (low ++ high)[i]?.getD 0 := by
    rw [Array.getD_eq_getD_getElem?, List.getElem?_toArray]
  refine bisect_eq (fun i hi => ?_) (fun i hi hlt => ?_) (Nat.zero_le _) (by simp)
  · rw [hgetD, List.getElem?_append_left hi, List.getElem?_eq_getElem hi]
    exact decide_eq_true (hlow _ (List.getElem_mem hi))
  · rw [List.length_append] at hlt
    have hi' : i - low.length < high.length := by omega
    rw [hgetD, List.getElem?_append_right hi, List.getElem?_eq_getElem hi']
    simpa using hhigh _ (List.getElem_mem hi')

/-- The context at a position is decided by the last of the places that begin no later. -/
lemma contextAt_append {before behind : List Span} {pos : Nat}
    (hbefore : ∀ s ∈ before, s.first ≤ pos) (hbehind : ∀ s ∈ behind, pos < s.first) :
    contextAt (before ++ behind) pos =
      before.getLast?.elim .code fun s => if pos < s.stop then s.context else .code := by
  have hbound : upperBound ((before ++ behind).map Span.first).toArray pos 0
      (before ++ behind).length = before.length := by
    have hlow : ∀ n ∈ before.map Span.first, n ≤ pos := List.forall_mem_map.mpr hbefore
    have hhigh : ∀ n ∈ behind.map Span.first, pos < n := List.forall_mem_map.mpr hbehind
    have h := upperBound_append hlow hhigh
    rwa [← List.map_append, List.length_map, List.length_map] at h
  rw [contextAt, hbound]
  rcases List.eq_nil_or_concat before with rfl | ⟨earlier, s, rfl⟩
  · rfl
  · simp

namespace Tiles

variable {a b pos : Nat} {spans : List Span} {s : Span}

/-- The search finds the place around a position. -/
lemma contextAt_of_mem (h : Tiles a b spans) (hs : s ∈ spans) (hcontains : s.Contains pos) :
    contextAt spans pos = s.context := by
  -- the places in front of `s` end, and so begin, no later than `s` begins; those behind it begin
  -- when `s` has ended, so `s` is the last one that the bisection counts
  obtain ⟨before, behind, rfl⟩ := List.append_of_mem hs
  obtain ⟨-, hbehind, hbefore⟩ := List.pairwise_append.mp h.pairwise
  have hle : ∀ s' ∈ before ++ [s], s'.first ≤ pos := by
    intro s' hs'
    rcases List.mem_append.mp hs' with hs' | hs'
    · have hfirst := (h.first_lt_stop s' (List.mem_append_left _ hs')).1
      have hstop := hbefore s' hs' s List.mem_cons_self
      have := hcontains.1
      omega
    · rw [List.mem_singleton.mp hs']
      exact hcontains.1
  have hlt : ∀ s' ∈ behind, pos < s'.first := fun s' hs' =>
    Nat.lt_of_lt_of_le hcontains.2 (List.rel_of_pairwise_cons hbehind hs')
  rw [List.append_cons, contextAt_append hle hlt, List.getLast?_concat, Option.elim_some,
    if_pos hcontains.2]

/-- Behind the last place there is code. -/
lemma contextAt_of_le (h : Tiles a b spans) (hpos : b ≤ pos) : contextAt spans pos = .code := by
  have hstop : ∀ s ∈ spans, s.stop ≤ pos := fun s hs =>
    Nat.le_trans (h.first_lt_stop s hs).2 hpos
  have hfirst : ∀ s ∈ spans, s.first ≤ pos := fun s hs =>
    Nat.le_trans (Nat.le_of_lt (h.first_lt_stop s hs).1) (hstop s hs)
  rw [← List.append_nil spans, contextAt_append hfirst (List.forall_mem_nil _)]
  -- the last place begins no later than the position, but has ended by then
  cases hlast : spans.getLast? with
  | none => rfl
  | some s => exact if_neg (Nat.not_lt.mpr (hstop s (List.mem_of_getLast? hlast)))

end Tiles

/-! ### The places of a text -/

lemma slice_append (x : Context) (before w after : Text) :
    Span.slice ⟨x, before.length, before.length + w.length⟩ (before ++ (w ++ after)) = w := by
  rw [Span.slice, ← List.append_assoc, ← List.length_append, List.take_left, List.drop_left]

namespace Covers

variable {t : Text} {segs : List Segment}

lemma tiles (h : Covers t segs) (offset : Nat) :
    Tiles offset (offset + t.length) (spansFrom offset segs) := by
  induction h generalizing offset with
  | nil => exact .nil
  | @cons x w after segs hseg _ ih =>
    rw [spansFrom, List.length_append, ← Nat.add_assoc]
    exact .cons (Nat.lt_add_of_pos_right (List.length_pos_of_ne_nil hseg.ne_nil)) (ih _)

/-- In the places of the segments stand their texts. -/
lemma map_slice (h : Covers t segs) (before : Text) :
    (spansFrom before.length segs).map (·.slice (before ++ t)) = segs.map Segment.text := by
  induction h generalizing before with
  | nil => rfl
  | @cons x w after segs _ _ ih =>
    rw [spansFrom, List.map_cons, List.map_cons, slice_append, ← List.length_append,
      ← List.append_assoc, ih]

lemma isSegment (h : Covers t segs) (before : Text) : ∀ s ∈ spansFrom before.length segs,
    IsSegment s.context (s.slice (before ++ t)) ((before ++ t).drop s.stop) := by
  induction h generalizing before with
  | nil => nofun
  | @cons x w after segs hseg _ ih =>
    rw [spansFrom, List.forall_mem_cons, slice_append, ← List.length_append, ← List.append_assoc,
      List.drop_left]
    exact ⟨hseg, ih (before ++ w)⟩

end Covers

lemma tiles_spans (t : Text) : Tiles 0 t.length (spans t) := by
  simpa [spans] using (covers_segments t).tiles 0

/-- The places of the segments tile a text, and none of them is empty. What stands in them, one
after the other, is the text. A comment begins with its sign and is the rest of its line. A literal
begins with its quote and ends with the first such quote that no backslash takes, or with its line
where there is none. Code is without quotes and comment signs. Each position of the text is in
exactly one place, whose context `contextAt` finds. -/
theorem spans_partition (t : Text) :
    Tiles 0 t.length (spans t) ∧ (spans t = [] ↔ t = []) ∧
    ((spans t).map (·.slice t)).flatten = t ∧
    (∀ s ∈ spans t, IsSegment s.context (s.slice t) (t.drop s.stop)) ∧
    ∀ pos < t.length, ∃ s, (s ∈ spans t ∧ s.Contains pos) ∧
      (∀ s' ∈ spans t, s'.Contains pos → s' = s) ∧ contextAt (spans t) pos = s.context := by
  have hcovers := covers_segments t
  have htiles := tiles_spans t
  refine ⟨htiles, ?_, ?_, hcovers.isSegment [], fun pos hpos => ?_⟩
  · rw [htiles.eq_nil_iff, eq_comm, List.length_eq_zero_iff]
  · have hslices : (spans t).map (·.slice t) = (segments t).map Segment.text :=
      hcovers.map_slice []
    rw [hslices, segments_flatten]
  · obtain ⟨s, ⟨hs, hcontains⟩, hunique⟩ := htiles.existsUnique (Nat.zero_le pos) hpos
    exact ⟨s, ⟨hs, hcontains⟩, hunique, htiles.contextAt_of_mem hs hcontains⟩

/-- A closed literal with an escaped quote and a comment sign, a literal next to it that a backslash
at the end of its line does not close, and a comment. -/
theorem spans_partition_quotes :
    spans "x\"\\\"#\"'y#\\\n# c".toList =
      [⟨.code, 0, 1⟩, ⟨.literal .double, 1, 6⟩, ⟨.literal .single, 6, 10⟩, ⟨.code, 10, 11⟩,
        ⟨.comment, 11, 14⟩] ∧
    (∀ s ∈ spans "x\"\\\"#\"'y#\\\n# c".toList,
      IsSegment s.context (s.slice "x\"\\\"#\"'y#\\\n# c".toList)
        ("x\"\\\"#\"'y#\\\n# c".toList.drop s.stop)) ∧
    ∃ s, (s ∈ spans "x\"\\\"#\"'y#\\\n# c".toList ∧ s.Contains 9) ∧
      (∀ s' ∈ spans "x\"\\\"#\"'y#\\\n# c".toList, s'.Contains 9 → s' = s) ∧
      contextAt (spans "x\"\\\"#\"'y#\\\n# c".toList) 9 = s.context := by
  obtain ⟨-, -, -, hsegments, hunique⟩ := spans_partition "x\"\\\"#\"'y#\\\n# c".toList
  exact ⟨by decide +kernel, hsegments, hunique 9 (by decide +kernel)⟩

end MipsAsm.Scan
