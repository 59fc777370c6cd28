import MipsAsm.Proofs.Token.Locality

/-!
# Progress of the machine

The machine stays within its text and never goes back (`Lexer.moved_step`). From one statement to
the next it takes characters, so that it halts after a number of moves that the length of the text
bounds (`Lexer.afterMoves?_bounds`).
-/

namespace MipsAsm

open Scan

namespace Scan

/-- The colon of a label stands behind its word. -/
lemma getElem?_of_isTag {t : Text} (h : isTag t) : t[(firstWord t).length]? = some ':' := by
  obtain ⟨r, hr⟩ := exists_append_of_isTag h
  calc t[(firstWord t).length]?
    _ = (firstWord t ++ ':' :: r)[(firstWord t).length]? := by
      rw [← List.singleton_append, ← List.append_assoc, ← hr]
    _ = some ':' := by
      rw [List.getElem?_append_right (Nat.le_refl _), Nat.sub_self]
      rfl

end Scan

namespace Lexer

/-! ### Positions -/

/-- The machine is within the text: what is left begins at its position, and the last statement
began no later. -/
structure Within (t : Text) (l : Lexer) : Prop where
  rest     : l.rest = t.drop l.pos
  start_le : l.start ≤ l.pos
  pos_le   : l.pos ≤ t.length

/-- The machine is about to read in a mode. A statement that is begun has characters left, and a
label has its colon. -/
structure Ready (t : Text) (mode : Mode) (l : Lexer) : Prop where
  within  : Within t l
  rest_ne : mode ≠ .initial → l.rest ≠ []
  isTag   : mode = .label → Scan.isTag l.rest

/-- A move from a machine within the text. It does not go back, and it fails at a character. -/
structure Moved (t : Text) (l : Lexer) (o : Outcome Lexer Failure (Option Mode)) : Prop where
  within : Within t o.state
  pos_le : l.pos ≤ o.state.pos
  fails  : ∀ e, o.result = .error e → o.state.rest ≠ []
  next   : ∀ next, o.result = .ok (some next) → Ready t next o.state

lemma lineLength_le_length (t : Text) : lineLength t ≤ t.length := by
  have hword := congrArg List.length (firstWord_append_afterWord t)
  have hline := (List.takeWhile_prefix (· ≠ '\n') (l := afterWord t)).length_le
  rw [List.length_append] at hword
  rw [lineLength, restOfLine]
  omega

variable {t : Text} {mode next : Mode} {l : Lexer} {n : Nat}

namespace Within

lemma ofText (t : Text) : Within t (ofText t) := ⟨rfl, Nat.le_refl 0, Nat.zero_le _⟩

lemma pos_add_length (h : Within t l) : l.pos + l.rest.length = t.length := by
  have hpos := h.pos_le
  rw [h.rest, List.length_drop]
  omega

lemma advance (h : Within t l) (hn : n ≤ l.rest.length) : Within t (l.advance n) where
  rest     := by rw [Lexer.advance, h.rest, List.drop_drop]
  start_le := Nat.le_trans h.start_le (Nat.le_add_right l.pos n)
  pos_le   := by
    rw [← h.pos_add_length]
    exact Nat.add_le_add_left hn l.pos

lemma emit (h : Within t l) (ss : List Statement) : Within t (l.emit ss) :=
  ⟨h.rest, h.start_le, h.pos_le⟩

lemma skipBlanks (h : Within t l) : Within t l.skipBlanks :=
  h.advance (List.takeWhile_prefix isBlank).length_le

/-- A statement may begin where the machine is. -/
lemma begin (h : Within t l) : Within t { l with start := l.pos } :=
  ⟨h.rest, Nat.le_refl l.pos, h.pos_le⟩

lemma ready (h : Within t l) : Ready t .initial l where
  within  := h
  rest_ne := fun hmode => absurd rfl hmode
  isTag   := by rintro ⟨⟩

/-- A statement is read and its characters are taken. -/
lemma moved (h : Within t l) (ss : List Statement) (hn : n ≤ l.rest.length) (events : List Event) :
    Moved t l ⟨.ok (some .initial), (l.emit ss).advance n, events⟩ where
  within := (h.emit ss).advance hn
  pos_le := Nat.le_add_right l.pos n
  fails  := by rintro e ⟨⟩
  next   := by
    rintro next ⟨⟩
    exact ((h.emit ss).advance hn).ready

end Within

/-! ### Moves -/

/-- A statement is refused where it stands. -/
lemma Ready.refused (h : Ready t mode l) (hmode : mode ≠ .initial) (e : Failure)
    (events : List Event) : Moved t l ⟨.error e, l, events⟩ where
  within := h.within
  pos_le := Nat.le_refl l.pos
  fails  := fun _ _ => h.rest_ne hmode
  next   := by rintro next ⟨⟩

lemma moved_readInitial (h : Within t l) : Moved t l (readInitial l) := by
  have hskip := h.skipBlanks
  have hpos : l.pos ≤ l.skipBlanks.pos := Nat.le_add_right l.pos _
  cases hrest : l.skipBlanks.rest with
  | nil =>
    rw [readInitial_of_nil hrest]
    refine ⟨hskip, hpos, ?_, ?_⟩
    · rintro e ⟨⟩
    · rintro next ⟨⟩
  | cons c r =>
    have hne : l.skipBlanks.rest ≠ [] := List.ne_nil_of_mem (hrest ▸ List.mem_cons_self)
    rw [readInitial_of_cons hrest]
    refine ⟨hskip.begin, hpos, fun _ _ => hne, fun next hnext => ⟨hskip.begin, fun _ => hne, ?_⟩⟩
    -- no character begins a statement in the label mode
    rintro rfl
    cases hmode : modeOf c with
    | error f =>
      rw [hmode] at hnext
      cases hnext
    | ok mode =>
      rw [hmode] at hnext
      cases hnext
      exact absurd hmode (modeOf_ne_label c)

lemma moved_readComment (h : Ready t .comment l) : Moved t l (readComment l) := by
  obtain ⟨c, r, hrest⟩ := List.exists_cons_of_ne_nil (h.rest_ne (by decide))
  have hline : (restOfLine r).length + 1 ≤ l.rest.length := by
    rw [hrest, List.length_cons]
    exact Nat.succ_le_succ (List.takeWhile_prefix _).length_le
  rw [readComment, hrest]
  exact h.within.moved [] hline []

lemma moved_readDirective (h : Ready t .directive l) : Moved t l (readDirective l) := by
  have hmode : Mode.directive ≠ .initial := by decide
  rw [readDirective]
  dsimp only
  split
  · exact h.refused hmode _ _
  · split
    · exact h.refused hmode _ _
    · exact h.within.moved _ (lineLength_le_length l.rest) _

lemma moved_readStatement (h : Ready t .statement l) : Moved t l (readStatement l) := by
  have hmode : Mode.statement ≠ .initial := by decide
  rw [readStatement]
  split
  · -- a label is left to its own mode: no character is taken
    next htag =>
    refine ⟨h.within, Nat.le_refl l.pos, ?_, ?_⟩
    · rintro e ⟨⟩
    · rintro next ⟨⟩
      exact ⟨h.within, fun _ => h.rest_ne hmode, fun _ => htag⟩
  · split
    · exact h.refused hmode _ _
    · dsimp only
      split
      · exact h.refused hmode _ _
      · split
        · exact h.refused hmode _ _
        · exact h.refused hmode _ _
        · exact h.within.moved _ (lineLength_le_length l.rest) _

lemma moved_readLabel (h : Ready t .label l) : Moved t l (readLabel l) := by
  have hlength : (firstWord l.rest).length < l.rest.length :=
    (List.getElem?_eq_some_iff.mp (getElem?_of_isTag (h.isTag rfl))).1
  unfold readLabel
  dsimp only
  split
  · exact h.within.moved _ hlength _
  · exact h.refused (by decide) _ _

/-- A move stays within the text and does not go back. -/
lemma moved_step (h : Ready t mode l) : Moved t l (step mode l) := by
  cases mode with
  | initial => exact moved_readInitial h.within
  | comment => exact moved_readComment h
  | directive => exact moved_readDirective h
  | statement => exact moved_readStatement h
  | label => exact moved_readLabel h

/-- To the beginning of a statement the machine comes by taking characters. -/
lemma pos_lt_of_step (h : Ready t mode l) (hs : (step mode l).result = .ok (some .initial)) :
    l.pos < (step mode l).state.pos := by
  have hmeasure := measure_step_lt hs
  -- the measure falls though the rank does not, so the rest of the text gets shorter
  have hrank : mode.rank ≤ Mode.rank .initial := by cases mode <;> decide
  have hbefore := h.within.pos_add_length
  have hafter := (moved_step h).within.pos_add_length
  rw [measure, measure] at hmeasure
  omega

/-! ### Runs -/

/-- The mode that is next and the machine, after some moves on a text; none if it halts before. -/
def afterMoves? (t : Text) : Nat → Option (Mode × Lexer)
  | 0     => some (.initial, ofText t)
  | n + 1 =>
    (afterMoves? t n).bind fun (mode, l) =>
      match (step mode l).result with
      | .ok (some next) => some (next, (step mode l).state)
      | _               => none

lemma afterMoves?_succ_eq_some_iff {l' : Lexer} :
    afterMoves? t (n + 1) = some (next, l') ↔
      ∃ mode l, afterMoves? t n = some (mode, l) ∧ (step mode l).result = .ok (some next) ∧
        (step mode l).state = l' := by
  rw [afterMoves?, Option.bind_eq_some_iff]
  constructor
  · rintro ⟨⟨mode, l⟩, hmoves, h⟩
    dsimp only at h
    split at h
    · next hresult =>
      cases h
      exact ⟨mode, l, hmoves, hresult, rfl⟩
    · cases h
  · rintro ⟨mode, l, hmoves, hresult, rfl⟩
    refine ⟨(mode, l), hmoves, ?_⟩
    dsimp only
    rw [hresult]

lemma ready_afterMoves? (h : afterMoves? t n = some (mode, l)) : Ready t mode l := by
  induction n generalizing mode l with
  | zero =>
    cases h
    exact (Within.ofText t).ready
  | succ n ih =>
    obtain ⟨mode', l', hmoves, hresult, rfl⟩ := afterMoves?_succ_eq_some_iff.mp h
    exact (moved_step (ih hmoves)).next mode hresult

/-- Each move makes the measure smaller, so there are no more moves than it is at first. -/
lemma le_of_afterMoves? (h : afterMoves? t n = some (mode, l)) :
    n + measure mode l ≤ 3 * t.length + 2 := by
  induction n generalizing mode l with
  | zero =>
    cases h
    exact Nat.le_of_eq (Nat.zero_add _)
  | succ n ih =>
    obtain ⟨mode', l', hmoves, hresult, rfl⟩ := afterMoves?_succ_eq_some_iff.mp h
    have hbefore := ih hmoves
    have hmeasure := measure_step_lt hresult
    omega

lemma pos_le_of_afterMoves? {m : Nat} {mode' : Mode} {l' : Lexer} (hmn : m ≤ n)
    (h : afterMoves? t m = some (mode, l)) (h' : afterMoves? t n = some (mode', l')) :
    l.pos ≤ l'.pos := by
  induction n, hmn using Nat.le_induction generalizing mode' l' with
  | base =>
    cases h.symm.trans h'
    exact Nat.le_refl l.pos
  | succ n hmn ih =>
    obtain ⟨mode'', l'', hmoves, hresult, rfl⟩ := afterMoves?_succ_eq_some_iff.mp h'
    exact Nat.le_trans (ih hmoves) (moved_step (ready_afterMoves? hmoves)).pos_le

/-- Some move is the last one: it ends the run or fails, and the run is where it leads. -/
lemma exists_lastMove (h : afterMoves? t n = some (mode, l)) :
    ∃ n' mode' l', afterMoves? t n' = some (mode', l') ∧
      ((step mode' l').result = .ok none ∨ ∃ e, (step mode' l').result = .error e) ∧
      (runFrom mode l).state = (step mode' l').state := by
  induction mode, l using run_induction generalizing n with
  | fails mode l e hstep =>
    refine ⟨n, mode, l, h, .inr ⟨e, hstep⟩, ?_⟩
    rw [state_runFrom, hstep]
  | ends mode l hstep =>
    refine ⟨n, mode, l, h, .inl hstep, ?_⟩
    rw [state_runFrom, hstep]
  | moves mode l next hstep ih =>
    rw [state_runFrom, hstep]
    exact ih (afterMoves?_succ_eq_some_iff.mpr ⟨mode, l, h, hstep, rfl⟩)

/-- Where the machine looks in a mode there are characters of the text: at its position if a
statement is begun, up to the end of the word and of the line there, and at the colon of a label. -/
structure Looks (t : Text) (mode : Mode) (l : Lexer) : Prop where
  rest    : l.rest = t.drop l.pos
  pos_lt  : mode ≠ .initial → l.pos < t.length
  line_le : l.pos + lineLength l.rest ≤ t.length
  colon   : mode = .label → t[l.pos + (firstWord l.rest).length]? = some ':'

lemma Ready.looks (h : Ready t mode l) : Looks t mode l where
  rest    := h.within.rest
  pos_lt  := by
    intro hmode
    have hlength := h.within.pos_add_length
    have hpos := List.length_pos_iff.mpr (h.rest_ne hmode)
    omega
  line_le := by
    rw [← h.within.pos_add_length]
    exact Nat.add_le_add_left (lineLength_le_length l.rest) l.pos
  colon   := by
    intro hmode
    rw [← getElem?_of_isTag (h.isTag hmode), ← List.getElem?_drop, ← h.within.rest]

/-- The machine halts within its text. One of its moves, of which the length of the text bounds the
number, is the last: it ends the run or fails. Before each move the machine looks at characters of
the text only, a move that fails stands at one, and after each move the beginning of the statement
is at or before the position, and that at or before the end of the text. The position never gets
smaller, and it is greater each time that a statement is next. -/
theorem afterMoves?_bounds (t : Text) :
    (∃ n mode l, n ≤ 3 * t.length + 2 ∧ afterMoves? t n = some (mode, l) ∧
      ((step mode l).result = .ok none ∨ ∃ e, (step mode l).result = .error e) ∧
      afterMoves? t (n + 1) = none ∧ (readText t).state = (step mode l).state) ∧
    (∀ n mode l, afterMoves? t n = some (mode, l) →
      Looks t mode l ∧
      (∀ e, (step mode l).result = .error e → (step mode l).state.pos < t.length) ∧
      (step mode l).state.start ≤ (step mode l).state.pos ∧
      (step mode l).state.pos ≤ t.length ∧
      l.pos ≤ (step mode l).state.pos) ∧
    (∀ m n l l', m < n → afterMoves? t m = some (.initial, l) →
      afterMoves? t n = some (.initial, l') → l.pos < l'.pos) := by
  refine ⟨?_, fun n mode l h => ?_, fun m n l l' hmn h h' => ?_⟩
  · obtain ⟨n, mode, l, hmoves, hlast, hstate⟩ := exists_lastMove (t := t) (n := 0) rfl
    have hbound := le_of_afterMoves? hmoves
    refine ⟨n, mode, l, by omega, hmoves, hlast, ?_, hstate⟩
    rw [afterMoves?, hmoves, Option.bind_some]
    dsimp only
    rcases hlast with hnone | ⟨e, herror⟩
    · rw [hnone]
    · rw [herror]
  · have hready := ready_afterMoves? h
    have hmoved := moved_step hready
    refine ⟨hready.looks, fun e he => ?_, hmoved.within.start_le, hmoved.within.pos_le,
      hmoved.pos_le⟩
    have hlength := hmoved.within.pos_add_length
    have hpos := List.length_pos_iff.mpr (hmoved.fails e he)
    omega
  -- the last of the moves in between takes characters
  · obtain ⟨k, rfl⟩ : ∃ k, n = k + 1 := ⟨n - 1, by omega⟩
    obtain ⟨mode, l'', hmoves, hresult, rfl⟩ := afterMoves?_succ_eq_some_iff.mp h'
    have hbefore : l.pos ≤ l''.pos := pos_le_of_afterMoves? (Nat.le_of_lt_succ hmn) h hmoves
    exact Nat.lt_of_le_of_lt hbefore (pos_lt_of_step (ready_afterMoves? hmoves) hresult)

/-- A label and an instruction on one line: the last move is the sixth one. -/
theorem afterMoves?_bounds_label :
    ∃ l l', afterMoves? "x: nop".toList 3 = some (.initial, l) ∧
      afterMoves? "x: nop".toList 5 = some (.initial, l') ∧ l.pos < l'.pos ∧
      (step .initial l').state.pos ≤ 6 ∧ (step .initial l').result = .ok none := by
  have hmode (n : Nat) (h : (afterMoves? "x: nop".toList n).map Prod.fst = some .initial) :
      ∃ l, afterMoves? "x: nop".toList n = some (.initial, l) := by
    obtain ⟨⟨mode, l⟩, hl, rfl⟩ := Option.map_eq_some_iff.mp h
    exact ⟨l, hl⟩
  obtain ⟨l, hl⟩ := hmode 3 (by decide +kernel)
  obtain ⟨l', hl'⟩ := hmode 5 (by decide +kernel)
  have hlast : (afterMoves? "x: nop".toList 5).map (fun p => (step p.1 p.2).result) =
      some (.ok none) := by
    decide +kernel
  rw [hl', Option.map_some, Option.some.injEq] at hlast
  exact ⟨l, l', hl, hl', (afterMoves?_bounds _).2.2 3 5 l l' (by decide) hl hl',
    ((afterMoves?_bounds _).2.1 5 .initial l' hl').2.2.2.1, hlast⟩

end Lexer

end MipsAsm
