import Mathlib.Data.List.TakeWhile
import MipsAsm.Proofs.Text.Lines
import MipsAsm.Proofs.Token.Failing
import MipsAsm.Proofs.Token.OnLine

/-!
# Line by line

A program is read as its lines are read alone, one after the other: `Lexer.readText_lines`.
-/

namespace MipsAsm

/-- The failure on a line. -/
def Failure.onLine (n : Nat) : Failure → Failure
  | .diagnosed d     => .diagnosed ⟨d.fault, .line n⟩
  | .tooManyDigits k => .tooManyDigits k

lemma Failure.Unplaced.atLine_eq {e : Failure} (h : e.Unplaced) (n : Nat) :
    e.atLine n = e.onLine n := by
  cases e with
  | tooManyDigits k => rfl
  | diagnosed d =>
    have hunknown : d.location = .unknown := h
    simp only [Failure.atLine, Failure.onLine, Diagnostic.atLine, hunknown]

namespace Lexer

open Scan

/-- Read a text up to its end or its first failure, its labels unresolved. -/
def readText (t : Text) : Outcome Lexer Failure Unit := runFrom .initial (ofText t)

/-- The tokens of a text that is read alone, as they stand on a line of a program. -/
def tokensOnLine (n : Nat) (line : Text) : List Token :=
  (readText line).state.tokens.toList.map (Token.onLine n)

/-! ### A single line -/

lemma newlines_eq_empty {line : Text} (h : '\n' ∉ line) : Scan.newlines line = #[] := by
  have hlength : (newlinesFrom 0 line).length = 0 := by
    rw [length_newlinesFrom, List.count_eq_zero.mpr h]
  rw [Scan.newlines, List.length_eq_zero_iff.mp hlength]

lemma line_eq_one {l : Lexer} (h : l.newlines = #[]) : l.line = 1 := by
  rw [line, h, lineAt, lowerBound, bisect]
  rfl

/-! ### Runs -/

section

variable {mode next : Mode} {l : Lexer} {e : Failure}

lemma result_runFrom (mode : Mode) (l : Lexer) :
    (runFrom mode l).result =
      match (step mode l).result with
      | .error e        => .error e
      | .ok none        => .ok ()
      | .ok (some next) => (runFrom next (step mode l).state).result := by
  rw [runFrom]
  dsimp only
  split <;> simp_all

lemma state_runFrom (mode : Mode) (l : Lexer) :
    (runFrom mode l).state =
      match (step mode l).result with
      | .error _        => (step mode l).state
      | .ok none        => (step mode l).state
      | .ok (some next) => (runFrom next (step mode l).state).state := by
  rw [runFrom]
  dsimp only
  split <;> simp_all

/-- Induction along a run. -/
@[elab_as_elim]
lemma run_induction {motive : Mode → Lexer → Prop} (mode : Mode) (l : Lexer)
    (fails : ∀ mode l e, (step mode l).result = .error e → motive mode l)
    (ends : ∀ mode l, (step mode l).result = .ok none → motive mode l)
    (moves : ∀ mode l next, (step mode l).result = .ok (some next) →
      motive next (step mode l).state → motive mode l) : motive mode l := by
  fun_induction runFrom mode l with
  | case1 mode l o e => exact fails mode l e ‹_›  -- the move fails
  | case2 mode l o => exact ends mode l ‹_›  -- the text ends
  | case3 mode l o next => exact moves mode l next ‹_› ‹_›  -- another mode follows

lemma advance_advance (l : Lexer) (m n : Nat) :
    (l.advance m).advance n = l.advance (m + n) := by
  simp [advance, Nat.add_assoc]

/-- Blanks in front of a statement do not matter. -/
lemma readInitial_advance {blanks left : Text} (hrest : l.rest = blanks ++ left)
    (hblank : ∀ c ∈ blanks, isBlank c) : readInitial (l.advance blanks.length) = readInitial l := by
  have hskip : (l.advance blanks.length).skipBlanks = l.skipBlanks := by
    rw [skipBlanks, skipBlanks, advance_advance]
    simp [advance, hrest, List.takeWhile_append_of_pos hblank]
  rw [readInitial, readInitial, hskip]

lemma isBlank_of_skipBlanks (h : l.skipBlanks.rest = []) : ∀ c ∈ l.rest, isBlank c := by
  have hlen : l.rest.length ≤ (l.rest.takeWhile isBlank).length := List.drop_eq_nil_iff.mp h
  have htake := (List.takeWhile_prefix isBlank).eq_of_length_le hlen
  intro c hc
  rw [← htake] at hc
  exact List.mem_takeWhile_imp hc

/-- The run goes on as if it began at the other machine. -/
def Continues (mode : Mode) (l l' : Lexer) : Prop :=
  (runFrom mode l).result = (runFrom .initial l').result ∧
  (runFrom mode l).state = (runFrom .initial l').state

lemma Continues.of_step (h : (step mode l).result = .ok (some next)) {l' : Lexer}
    (hc : Continues next (step mode l).state l') : Continues mode l l' := by
  constructor
  · rw [result_runFrom, h]
    exact hc.1
  · rw [state_runFrom, h]
    exact hc.2

lemma Continues.of_step_eq {l' l'' : Lexer} {events : List Event}
    (h : step mode l = ⟨.ok (some next), l', events⟩) (hc : Continues next l' l'') :
    Continues mode l l'' :=
  .of_step (by rw [h]) (by rwa [h])

lemma Continues.trans {l' l'' : Lexer} (h : Continues mode l l')
    (h' : Continues .initial l' l'') : Continues mode l l'' :=
  ⟨h.1.trans h'.1, h.2.trans h'.2⟩

lemma continues_advance {blanks left : Text} (hrest : l.rest = blanks ++ left)
    (hblank : ∀ c ∈ blanks, isBlank c) : Continues .initial l (l.advance blanks.length) := by
  have hread := readInitial_advance hrest hblank
  constructor
  · rw [result_runFrom, result_runFrom]
    simp only [step, hread]
  · rw [state_runFrom, state_runFrom]
    simp only [step, hread]

/-- A run that goes on at the end of a text ends there. -/
lemma Continues.ends {l' : Lexer} {read : Text} {ts : Array Token} (h : Continues mode l l')
    (hat : At read [] ts l') :
    (runFrom mode l).result = .ok () ∧ (runFrom mode l).state.tokens = ts := by
  have hnil : l'.skipBlanks.rest = [] := by
    rw [skipBlanks, advance, hat.rest]
    rfl
  rw [h.1, h.2, result_runFrom, state_runFrom, step, readInitial_of_nil hnil]
  exact ⟨rfl, hat.tokens⟩

end

namespace OnLine

variable {p : Place} {earlier : Array Token} {mode : Mode} {whole part : Lexer}

/-- What fails on the line fails in the program, and the line is known. -/
lemma runFrom_error (h : OnLine p earlier mode whole part) {e : Failure}
    (he : (runFrom mode part).result = .error e) :
    (runFrom mode whole).result = .error e ∧ (runFrom mode whole).state.line = p.number := by
  induction mode, part using run_induction generalizing whole with
  | fails mode part e' hstep =>
    rw [result_runFrom, hstep] at he
    cases he
    have hagree := h.step (by rw [hstep]; nofun)
    rw [Agree, hstep] at hagree
    rw [result_runFrom, state_runFrom, hagree.1]
    exact ⟨rfl, hagree.2⟩
  | ends mode part hstep =>
    rw [result_runFrom, hstep] at he
    cases he
  | moves mode part next hstep ih =>
    rw [result_runFrom, hstep] at he
    have hagree := h.step (by rw [hstep]; nofun)
    rw [Agree, hstep] at hagree
    rw [result_runFrom, state_runFrom, hagree.1]
    exact ih hagree.2 he

/-- When the line is read, the program goes on after it with the tokens of the line. -/
lemma runFrom_ok (h : OnLine p earlier mode whole part)
    (hok : (runFrom mode part).result = .ok ()) :
    ∃ whole', Continues mode whole whole' ∧
      At (p.before ++ p.line) p.after
        (earlier ++ (runFrom mode part).state.tokens.map (Token.onLine p.number)) whole' := by
  induction mode, part using run_induction generalizing whole with
  | fails mode part e' hstep =>
    rw [result_runFrom, hstep] at hok
    cases hok
  | ends mode part hstep =>
    -- alone, the line ends the run; in the program the blanks at its end are still to be skipped
    obtain ⟨rfl, hnil⟩ := h.of_step_eq_none hstep
    have hstate : (runFrom .initial part).state = part.skipBlanks := by
      rw [state_runFrom, hstep]
      exact congrArg Outcome.state (readInitial_of_nil hnil)
    obtain ⟨done, hdone, hat⟩ := h.at_rest
    refine ⟨whole.advance part.rest.length, ?_, ?_⟩
    · exact continues_advance h.rest_eq (isBlank_of_skipBlanks hnil)
    · rw [hstate, hdone, ← List.append_assoc]
      exact hat.advance
  | moves mode part next hstep ih =>
    rw [result_runFrom, hstep] at hok
    rw [state_runFrom, hstep]
    have hagree := h.step (by rw [hstep]; nofun)
    rw [Agree, hstep] at hagree
    obtain ⟨whole', hcontinues, hat⟩ := ih hagree.2 hok
    exact ⟨whole', hcontinues.of_step hagree.1, hat⟩

/-- Where a line begins, reading the line alone begins. -/
lemma ofLine {p : Place} {earlier : Array Token} {l : Lexer}
    (h : At p.before (p.line ++ p.after) earlier l) :
    OnLine p earlier .initial l (ofText p.line) where
  at_rest := by
    refine ⟨[], rfl, ?_⟩
    rw [List.append_nil, show (ofText p.line).tokens = #[] from rfl, Array.map_empty,
      Array.append_empty]
    exact h
  line_eq := nofun
  rest_ne := nofun
  isTag   := nofun

end OnLine

/-! ### Lines -/

section

variable {read line : Text} {ls : List Text} {earlier : Array Token} {l : Lexer} {e : Failure}

/-- The first of some lines that are left. -/
def firstPlace (read line : Text) (ls : List Text) (h : '\n' ∉ line) : Place where
  before := read
  line   := line
  after  := ls.flatMap ('\n' :: ·)
  newline_not_mem := h
  head_after      := by
    cases ls with
    | nil => nofun
    | cons l ls =>
      rintro c ⟨⟩
      rfl

lemma onLine_firstPlace (hat : At read (Text.joinLines (line :: ls)) earlier l) (h : '\n' ∉ line) :
    OnLine (firstPlace read line ls h) earlier .initial l (ofText line) := by
  rw [Text.joinLines_eq_append] at hat
  exact OnLine.ofLine hat

lemma runFrom_first_error (hat : At read (Text.joinLines (line :: ls)) earlier l) (h : '\n' ∉ line)
    (he : (readText line).result = .error e) :
    (runFrom .initial l).result = .error e ∧
    (runFrom .initial l).state.line = read.count '\n' + 1 :=
  (onLine_firstPlace hat h).runFrom_error he

/-- After a line that is read the next line begins. -/
lemma runFrom_first_ok (hat : At read (Text.joinLines (line :: ls)) earlier l) (h : '\n' ∉ line)
    (hok : (readText line).result = .ok ()) (hne : ls ≠ []) :
    ∃ l', Continues .initial l l' ∧
      At (read ++ line ++ ['\n']) (Text.joinLines ls)
        (earlier ++ (tokensOnLine (read.count '\n' + 1) line).toArray) l' := by
  obtain ⟨l', hcontinues, hend⟩ := (onLine_firstPlace hat h).runFrom_ok hok
  obtain ⟨line', ls', rfl⟩ := List.exists_cons_of_ne_nil hne
  have hafter : (firstPlace read line (line' :: ls') h).after =
      ['\n'] ++ Text.joinLines (line' :: ls') := by
    rw [Text.joinLines_eq_append]
    rfl
  rw [hafter] at hend
  -- the line feed in front of the next line is skipped as a blank is
  refine ⟨l'.advance 1, hcontinues.trans ?_, ?_⟩
  · exact continues_advance hend.rest (by simp [isBlank])
  · rw [tokensOnLine, ← List.map_toArray, Array.toArray_toList]
    exact hend.advance

/-- After the last line the run ends. -/
lemma runFrom_last_ok (hat : At read line earlier l) (h : '\n' ∉ line)
    (hok : (readText line).result = .ok ()) :
    (runFrom .initial l).result = .ok () ∧
    (runFrom .initial l).state.tokens.toList =
      earlier.toList ++ tokensOnLine (read.count '\n' + 1) line := by
  have hat : At read (Text.joinLines [line]) earlier l := hat
  obtain ⟨l', hcontinues, hend⟩ := (onLine_firstPlace hat h).runFrom_ok hok
  obtain ⟨hresult, htokens⟩ := hcontinues.ends hend
  refine ⟨hresult, ?_⟩
  rw [htokens, Array.toList_append, Array.toList_map]
  rfl

lemma count_after_line (read : Text) (h : '\n' ∉ line) :
    (read ++ line ++ ['\n']).count '\n' = read.count '\n' + 1 := by
  simp [List.count_eq_zero.mpr h]

lemma runFrom_lines_ok (hat : At read (Text.joinLines ls) earlier l) (hne : ls ≠ [])
    (hls : ∀ line ∈ ls, '\n' ∉ line) (hok : ∀ line ∈ ls, (readText line).result = .ok ()) :
    (runFrom .initial l).result = .ok () ∧
    (runFrom .initial l).state.tokens.toList =
      earlier.toList ++
        (ls.zipIdx (read.count '\n' + 1)).flatMap fun p => tokensOnLine p.2 p.1 := by
  induction ls generalizing read earlier l with
  | nil => exact absurd rfl hne
  | cons line ls ih =>
    rw [List.forall_mem_cons] at hls hok
    by_cases hempty : ls = []
    · subst hempty
      simpa using runFrom_last_ok hat hls.1 hok.1
    · obtain ⟨l', hcontinues, hnext⟩ := runFrom_first_ok hat hls.1 hok.1 hempty
      have := ih hnext hempty hls.2 hok.2
      rw [count_after_line read hls.1] at this
      rw [hcontinues.1, hcontinues.2, this.2, List.zipIdx_cons, List.flatMap_cons]
      refine ⟨this.1, ?_⟩
      simp

lemma runFrom_lines_error (hat : At read (Text.joinLines ls) earlier l)
    (hls : ∀ line ∈ ls, '\n' ∉ line) {i : Nat} (hline : ls[i]? = some line)
    (hok : ∀ line' ∈ ls.take i, (readText line').result = .ok ())
    (he : (readText line).result = .error e) :
    (runFrom .initial l).result = .error e ∧
    (runFrom .initial l).state.line = read.count '\n' + 1 + i := by
  induction ls generalizing read earlier l i with
  | nil => cases hline
  | cons line' ls ih =>
    rw [List.forall_mem_cons] at hls
    cases i with
    | zero =>
      cases hline
      exact runFrom_first_error hat hls.1 he
    | succ i =>
      rw [List.getElem?_cons_succ] at hline
      rw [List.take_succ_cons, List.forall_mem_cons] at hok
      -- the line that fails is a later one, so this one is not the last
      have hempty : ls ≠ [] := List.ne_nil_of_mem (List.mem_of_getElem? hline)
      obtain ⟨l', hcontinues, hnext⟩ := runFrom_first_ok hat hls.1 hok.1 hempty
      have := ih hnext hls.2 hline hok.2
      rw [hcontinues.1, hcontinues.2, this.2, count_after_line read hls.1]
      exact ⟨this.1, by omega⟩

end

lemma at_ofText (t : Text) : At [] (Text.joinLines t.lines) #[] (ofText t) := by
  rw [Text.joinLines_lines]
  exact ⟨rfl, rfl, rfl, rfl⟩

lemma tokenize_eq_error {t : Text} {e : Failure} (h : (readText t).result = .error e) :
    tokenize t = .error (e.onLine (readText t).state.line) := by
  have he : e.Unplaced := unplaced_runFrom .initial (ofText t) h
  rw [← he.atLine_eq]
  have hrun : (runFrom .initial (ofText t)).result = .error e := h
  cases e with
  | tooManyDigits n =>
    unfold tokenize tokens?
    simp only [hrun]
    rfl
  | diagnosed d =>
    unfold tokenize tokens?
    simp only [hrun]
    rfl

/-- A program whose lines can be read is read, and its tokens are those of the lines, in order, each
on its line. Otherwise it fails as the first line that cannot be read fails alone, and the line is
told. -/
theorem readText_lines (t : Text) :
    ((∀ line ∈ t.lines, (readText line).result = .ok ()) →
      (readText t).result = .ok () ∧
      (readText t).state.tokens.toList =
        (t.lines.zipIdx 1).flatMap fun p => tokensOnLine p.2 p.1) ∧
    (∀ (i : Nat) (line : Text) (e : Failure), t.lines[i]? = some line →
      (∀ line' ∈ t.lines.take i, (readText line').result = .ok ()) →
      (readText line).result = .error e →
      (readText t).result = .error e ∧ tokenize t = .error (e.onLine (i + 1))) := by
  have hlines (line : Text) (h : line ∈ t.lines) : '\n' ∉ line :=
    Text.newline_not_mem_of_mem_lines h
  constructor
  · intro hok
    simpa [readText] using runFrom_lines_ok (at_ofText t) (Text.lines_ne_nil t) hlines hok
  · intro i line e hline hok he
    obtain ⟨hresult, hnumber⟩ := runFrom_lines_error (at_ofText t) hlines hline hok he
    refine ⟨hresult, ?_⟩
    have hnumber : (readText t).state.line = i + 1 := by
      simpa [readText, Nat.add_comm] using hnumber
    rw [tokenize_eq_error hresult, hnumber]

theorem readText_lines_label :
    (readText "x: nop\n y: .byte 1".toList).state.tokens.toList =
      ((Text.lines "x: nop\n y: .byte 1".toList).zipIdx 1).flatMap
        (fun p => tokensOnLine p.2 p.1) ∧
    tokenize "x: nop\n.bytes 1\n9".toList =
      .error (.diagnosed ⟨.unknownDirective ".bytes".toList, .line 2⟩) := by
  constructor
  · have hok : ∀ line ∈ Text.lines "x: nop\n y: .byte 1".toList,
        (readText line).result = .ok () := by
      decide +kernel
    exact ((readText_lines "x: nop\n y: .byte 1".toList).1 hok).2
  · have hline : (Text.lines "x: nop\n.bytes 1\n9".toList)[1]? = some ".bytes 1".toList := by
      decide +kernel
    have hok : ∀ line ∈ (Text.lines "x: nop\n.bytes 1\n9".toList).take 1,
        (readText line).result = .ok () := by
      decide +kernel
    have he : (readText ".bytes 1".toList).result =
        .error (.diagnosed ⟨.unknownDirective ".bytes".toList, .unknown⟩) := by
      decide +kernel
    exact ((readText_lines "x: nop\n.bytes 1\n9".toList).2 1 _ _ hline hok he).2

end Lexer

end MipsAsm
