import MipsAsm.Proofs.Scan.Partition
import MipsAsm.Proofs.Text.Lines

/-!
# Parts of a text

What a character belongs to is decided by what stands in front of it, and of that by the state only
in which it leaves the scan (`contextsFrom_take`, `drop_contextsFrom`). So a text may be cut where
the scan is in code, or at a line feed, and its parts scanned by themselves. In particular each line
may be scanned by itself: `contextAt_parts`.
-/

namespace MipsAsm.Scan

/-! ### Contexts by place -/

/-- The contexts of the characters of segments. -/
def marks (segs : List Segment) : List Context :=
  segs.flatMap fun seg => List.replicate seg.text.length seg.context

lemma marks_consSegment (s : State) (c : Char) (segs : List Segment) :
    marks (consSegment s c segs) = s.contextOf c :: marks segs := by
  cases segs with
  | nil => rfl
  | cons seg segs =>
    rw [consSegment]
    split
    · next h =>
      rw [marks, marks, List.flatMap_cons, List.flatMap_cons, List.length_cons,
        List.replicate_succ, h.1]
      rfl
    · rfl

lemma marks_segmentsFrom (s : State) (t : Text) : marks (segmentsFrom s t) = contextsFrom s t := by
  induction t generalizing s with
  | nil => rfl
  | cons c t ih => rw [segmentsFrom, marks_consSegment, ih, contextsFrom]

/-- The characters in a place have its context. -/
lemma Covers.getElem?_marks {t : Text} {segs : List Segment} (h : Covers t segs) (offset : Nat) :
    ∀ s ∈ spansFrom offset segs, ∀ pos, s.Contains (offset + pos) →
      (marks segs)[pos]? = some s.context := by
  induction h generalizing offset with
  | nil => nofun
  | @cons x w after segs _ hafter ih =>
    rw [spansFrom, List.forall_mem_cons]
    refine ⟨fun pos hpos => ?_, fun s hs pos hpos => ?_⟩
    · have hlt : pos < w.length := Nat.lt_of_add_lt_add_left hpos.2
      rw [marks, List.flatMap_cons, List.getElem?_append_left (by simpa using hlt),
        List.getElem?_replicate, if_pos hlt]
    -- a later place: the characters of this one are passed over
    · have hle : w.length ≤ pos :=
        Nat.le_of_add_le_add_left (Nat.le_trans ((hafter.tiles _).le_first s hs) hpos.1)
      rw [marks, List.flatMap_cons, List.getElem?_append_right (by simpa using hle),
        List.length_replicate]
      refine ih _ s hs (pos - w.length) ?_
      rwa [Nat.add_assoc, Nat.add_sub_cancel' hle]

/-- The place around a position tells what the character there belongs to. -/
lemma contextAt_spans (t : Text) (pos : Nat) :
    contextAt (spans t) pos = (contexts t)[pos]?.getD .code := by
  have htiles := tiles_spans t
  rcases Nat.lt_or_ge pos t.length with hpos | hpos
  · obtain ⟨s, ⟨hs, hcontains⟩, -⟩ := htiles.existsUnique (Nat.zero_le pos) hpos
    have hmark : (contexts t)[pos]? = some s.context := by
      rw [contexts, ← marks_segmentsFrom]
      exact (covers_segments t).getElem?_marks 0 s hs pos (by rwa [Nat.zero_add])
    rw [htiles.contextAt_of_mem hs hcontains, hmark, Option.getD_some]
  · rw [htiles.contextAt_of_le hpos, List.getElem?_eq_none (by simpa [contexts] using hpos),
      Option.getD_none]

/-- Behind the end of a text there is code. -/
lemma contextAt_length (t : Text) : contextAt (spans t) t.length = .code :=
  (tiles_spans t).contextAt_of_le (Nat.le_refl _)

/-- A scan that has read the text in front of a character is in the state which tells what the
character belongs to. -/
lemma contextAt_after (before : Text) (c : Char) (r : Text) :
    contextAt (spans (before ++ c :: r)) before.length = (State.code.after before).contextOf c := by
  rw [contextAt_spans, contexts, contextsFrom_append,
    List.getElem?_append_right (by rw [length_contextsFrom]), length_contextsFrom, Nat.sub_self]
  rfl

/-! ### Cuts -/

section

variable {t : Text} {p pos : Nat}

/-- What a character belongs to does not depend on what stands behind it. -/
lemma contextsFrom_take (s : State) (t : Text) (p : Nat) :
    contextsFrom s (t.take p) = (contextsFrom s t).take p := by
  induction t generalizing s p with
  | nil => cases p <;> rfl
  | cons c t ih =>
    cases p with
    | zero => rfl
    | succ p => rw [List.take_succ_cons, contextsFrom, contextsFrom, List.take_succ_cons, ih]

/-- What a character belongs to depends on what stands in front of it through the state only. -/
lemma drop_contextsFrom (s : State) (t : Text) (p : Nat) :
    (contextsFrom s t).drop p = contextsFrom (s.after (t.take p)) (t.drop p) := by
  induction t generalizing s p with
  | nil => cases p <;> rfl
  | cons c t ih =>
    cases p with
    | zero => rfl
    | succ p =>
      rw [contextsFrom, List.drop_succ_cons, List.drop_succ_cons, List.take_succ_cons,
        State.after_cons, ih]

lemma contextsFrom_lineEnd (s : State) (ht : ∀ c ∈ t.head?, c = '\n') :
    contextsFrom s t = contexts t := by
  rw [← marks_segmentsFrom, segmentsFrom_lineEnd s ht, marks_segmentsFrom, contexts]

/-- A position at which the scan is in code, or at which a line feed stands. -/
def IsCut (t : Text) (p : Nat) : Prop :=
  State.code.after (t.take p) = .code ∨ t[p]? = some '\n'

instance (t : Text) (p : Nat) : Decidable (IsCut t p) :=
  inferInstanceAs (Decidable (State.code.after (t.take p) = .code ∨ t[p]? = some '\n'))

lemma IsCut.contexts_drop (h : IsCut t p) : contexts (t.drop p) = (contexts t).drop p := by
  rw [contexts.eq_1 t, drop_contextsFrom]
  rcases h with hcode | hline
  · rw [hcode, contexts]
  · -- a line feed leads to code from every state
    have hhead : (t.drop p).head? = some '\n' := List.head?_drop.trans hline
    rw [contextsFrom_lineEnd _ (by simp [hhead])]

lemma contextAt_take (t : Text) (hpos : pos < p) :
    contextAt (spans (t.take p)) pos = contextAt (spans t) pos := by
  rw [contextAt_spans, contextAt_spans, contexts, contextsFrom_take, List.getElem?_take_of_lt hpos,
    contexts]

lemma IsCut.contextAt_drop (h : IsCut t p) (pos : Nat) :
    contextAt (spans (t.drop p)) pos = contextAt (spans t) (p + pos) := by
  rw [contextAt_spans, contextAt_spans, h.contexts_drop, List.getElem?_drop]

end

/-! ### Lines -/

/-- Lines one after the other, each with the line feed that ends it. -/
def endedLines (ls : List Text) : Text := ls.flatMap (· ++ ['\n'])

/-- Behind ended lines the scan is in code. -/
lemma State.after_endedLines (ls : List Text) : code.after (endedLines ls) = .code := by
  induction ls with
  | nil => rfl
  | cons l ls ih =>
    rw [endedLines, List.flatMap_cons, after_append, after_append, after_cons, next_newline]
    exact ih

section

variable {t line after : Text} {before behind : List Text} {pos : Nat}

/-- A line of a text stands between the lines before it and the lines behind it. -/
lemma eq_append_of_lines_eq (h : t.lines = before ++ line :: behind) :
    t = endedLines before ++ (line ++ behind.flatMap ('\n' :: ·)) := by
  rw [← Text.joinLines_lines t, h]
  clear h
  induction before with
  | nil => exact Text.joinLines_eq_append line behind
  | cons l before ih =>
    rw [List.cons_append, Text.joinLines_cons l (by simp), ih]
    simp [endedLines]

/-- A line is scanned alike by itself and at the beginning of a text. Its end counts as code, like
the line feed that stands there in the text. -/
lemma contextAt_line (hafter : ∀ c ∈ after.head?, c = '\n') (hpos : pos ≤ line.length) :
    contextAt (spans (line ++ after)) pos = contextAt (spans line) pos := by
  rcases Nat.lt_or_eq_of_le hpos with hlt | rfl
  · rw [← contextAt_take (line ++ after) hlt, List.take_left]
  · -- the end of the line, where nothing stands or a line feed does
    rw [contextAt_length, contextAt_spans, contexts, contextsFrom_append,
      List.getElem?_append_right (by rw [length_contextsFrom])]
    cases after with
    | nil => simp [contextsFrom]
    | cons c r =>
      obtain rfl := hafter c rfl
      simp [contextsFrom, State.contextOf_newline]

end

/-- A text may be cut where the scan is in code, or at a line feed: the positions in front of the
cut and those behind it have the contexts that they have in their part. In particular each position
of a line, with the line feed that ends it, has the context that it has in the line by itself. -/
theorem contextAt_parts (t : Text) :
    (∀ p, IsCut t p →
      (∀ pos < p, contextAt (spans t) pos = contextAt (spans (t.take p)) pos) ∧
      ∀ pos, contextAt (spans t) (p + pos) = contextAt (spans (t.drop p)) pos) ∧
    ∀ before line behind, t.lines = before ++ line :: behind →
      t = endedLines before ++ (line ++ behind.flatMap ('\n' :: ·)) ∧
      ∀ pos ≤ line.length,
        contextAt (spans t) ((endedLines before).length + pos) = contextAt (spans line) pos := by
  refine ⟨fun p hp => ⟨fun pos hpos => (contextAt_take t hpos).symm,
    fun pos => (hp.contextAt_drop pos).symm⟩, fun before line behind hlines => ?_⟩
  have ht := eq_append_of_lines_eq hlines
  have hcut : IsCut t (endedLines before).length := by
    left
    rw [ht, List.take_left, State.after_endedLines]
  have hfeed : ∀ c ∈ (behind.flatMap ('\n' :: ·)).head?, c = '\n' := by
    cases behind <;> simp
  refine ⟨ht, fun pos hpos => ?_⟩
  calc contextAt (spans t) ((endedLines before).length + pos)
    _ = contextAt (spans (t.drop (endedLines before).length)) pos := (hcut.contextAt_drop pos).symm
    _ = contextAt (spans (line ++ behind.flatMap ('\n' :: ·))) pos := by
      conv_lhs => rw [ht, List.drop_left]
    _ = contextAt (spans line) pos := contextAt_line hfeed hpos

/-- A text that is cut at the line feed behind a backslash in an open literal, and the line behind
that, in which a comment follows a closed literal. -/
theorem contextAt_parts_backslash :
    (IsCut "\"a\\\n'#' # b\nc".toList 3 ∧
      State.code.after ("\"a\\\n'#' # b\nc".toList.take 3) = .escaped .double ∧
      contextAt (spans "\"a\\\n'#' # b\nc".toList) 2 = contextAt (spans "\"a\\".toList) 2 ∧
      contextAt (spans "\"a\\\n'#' # b\nc".toList) (3 + 2) =
        contextAt (spans "\n'#' # b\nc".toList) 2) ∧
    Text.lines "\"a\\\n'#' # b\nc".toList =
      ["\"a\\".toList] ++ "'#' # b".toList :: ["c".toList] ∧
    contextAt (spans "\"a\\\n'#' # b\nc".toList) (4 + 5) =
      contextAt (spans "'#' # b".toList) 5 := by
  obtain ⟨hcuts, hlines⟩ := contextAt_parts "\"a\\\n'#' # b\nc".toList
  have hcut : IsCut "\"a\\\n'#' # b\nc".toList 3 := by decide
  have hline : Text.lines "\"a\\\n'#' # b\nc".toList =
      ["\"a\\".toList] ++ "'#' # b".toList :: ["c".toList] := by decide
  obtain ⟨hbefore, hbehind⟩ := hcuts 3 hcut
  obtain ⟨-, hpositions⟩ := hlines _ _ _ hline
  exact ⟨⟨hcut, by decide, hbefore 2 (by decide), hbehind 2⟩, hline, hpositions 5 (by decide)⟩

end MipsAsm.Scan
