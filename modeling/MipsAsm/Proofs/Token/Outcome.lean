import MipsAsm.Proofs.Token.Origin

/-!
# How reading a program ends

A program has tokens, or a failure is diagnosed and its place is told, or a line has a decimal
number with more digits than are read. A diagnosed failure leaves no tokens behind; such a number
leaves those that were read in front of it (`Lexer.tokens?_ends`).
-/

namespace MipsAsm

/-- A failure on a line has a place in reports. -/
lemma Diagnostic.place_ne_empty {d : Diagnostic} {n : Nat} (h : d.location = .line n) :
    d.report.place ≠ "" := by
  have hplace : d.report.place = toString n := by rw [report, h, Location.text]
  rw [hplace]
  exact Nat.repr_ne_empty

namespace Lexer

open Scan

/-- A move keeps the tokens. -/
lemma isPrefix_tokens_step (mode : Mode) (l : Lexer) :
    l.tokens.toList <+: (step mode l).state.tokens.toList := by
  have hemit (ss : List Statement) : l.tokens.toList <+: (l.emit ss).tokens.toList := by
    rw [emit, Array.toList_append]
    exact List.prefix_append _ _
  cases mode with
  | initial =>
    unfold step readInitial
    dsimp only
    split <;> exact List.prefix_refl _
  | comment =>
    rw [step, readComment]
    split <;> exact List.prefix_refl _
  | directive =>
    rw [step, readDirective]
    dsimp only
    split
    · exact List.prefix_refl _
    · split
      · exact List.prefix_refl _
      · exact hemit _
  | statement =>
    rw [step, readStatement]
    split
    · exact List.prefix_refl _
    · split
      · exact List.prefix_refl _
      · dsimp only
        split
        · exact List.prefix_refl _
        · split
          · exact List.prefix_refl _
          · exact List.prefix_refl _
          · exact hemit _
  | label =>
    unfold step readLabel
    dsimp only
    split
    · exact hemit _
    · exact List.prefix_refl _

lemma isPrefix_tokens_runFrom (mode : Mode) (l : Lexer) :
    l.tokens.toList <+: (runFrom mode l).state.tokens.toList := by
  induction mode, l using run_induction with
  | fails mode l e hstep =>
    rw [state_runFrom, hstep]
    exact isPrefix_tokens_step mode l
  | ends mode l hstep =>
    rw [state_runFrom, hstep]
    exact isPrefix_tokens_step mode l
  | moves mode l next hstep ih =>
    rw [state_runFrom, hstep]
    exact (isPrefix_tokens_step mode l).trans ih

/-- Lines that are read leave their tokens, however the program goes on. -/
lemma isPrefix_tokens_lines {read : Text} {ls : List Text} {earlier : Array Token} {l : Lexer}
    (hat : At read (Text.joinLines ls) earlier l) (hls : ∀ line ∈ ls, '\n' ∉ line) {i : Nat}
    (hi : i < ls.length) (hok : ∀ line ∈ ls.take i, (readText line).result = .ok ()) :
    earlier.toList ++
        ((ls.take i).zipIdx (read.count '\n' + 1)).flatMap (fun p => tokensOnLine p.2 p.1) <+:
      (runFrom .initial l).state.tokens.toList := by
  induction ls generalizing read earlier l i with
  | nil => cases hi
  | cons line ls ih =>
    cases i with
    | zero =>
      rw [List.take_zero, List.zipIdx_nil, List.flatMap_nil, List.append_nil, ← hat.tokens]
      exact isPrefix_tokens_runFrom .initial l
    | succ i =>
      rw [List.forall_mem_cons] at hls
      rw [List.take_succ_cons, List.forall_mem_cons] at hok
      rw [List.length_cons, Nat.succ_lt_succ_iff] at hi
      have hne : ls ≠ [] := List.ne_nil_of_length_pos (Nat.zero_lt_of_lt hi)
      obtain ⟨l', hcontinues, hnext⟩ := runFrom_first_ok hat hls.1 hok.1 hne
      have := ih hnext hls.2 hi hok.2
      rw [count_after_line read hls.1] at this
      rw [hcontinues.2, List.take_succ_cons, List.zipIdx_cons, List.flatMap_cons]
      simpa using this

variable {t : Text}

/-- Where a number with too many digits is read, the machine stops and keeps its tokens. -/
lemma tokens?_tooManyDigits {n : Nat} (h : (readText t).result = .error (.tooManyDigits n)) :
    (tokens?.run (ofText t)).result = .error (.tooManyDigits n) ∧
    (tokens?.run (ofText t)).state = (readText t).state := by
  have hrun : (runFrom .initial (ofText t)).result = .error (.tooManyDigits n) := h
  unfold Run.run tokens?
  simp only [hrun, true_and]
  rfl

/-- A machine that gives tokens has them. -/
lemma state_tokens?_of_ok {ts : List Token} (h : (tokens?.run (ofText t)).result = .ok ts) :
    (tokens?.run (ofText t)).state.tokens.toList = ts := by
  revert h
  unfold Run.run tokens?
  dsimp only
  split
  · nofun
  · nofun
  · split
    · nofun
    · rintro ⟨⟩
      rfl

/-- A diagnosed failure leaves no tokens behind. -/
lemma state_tokens?_of_diagnosed {d : Diagnostic}
    (h : (tokens?.run (ofText t)).result = .error (.diagnosed d)) :
    (tokens?.run (ofText t)).state.tokens = #[] := by
  revert h
  unfold Run.run tokens?
  dsimp only
  split
  · nofun
  · exact fun _ => rfl
  · split
    · exact fun _ => rfl
    · nofun

/-- A program is not read for its number of digits only where a line has such a number, and lines in
front of that one are read. -/
lemma exists_line_of_tooManyDigits {n : Nat} (h : tokenize t = .error (.tooManyDigits n)) :
    ∃ (i : Nat) (line ds : Text), t.lines[i]? = some line ∧
      (∀ line' ∈ t.lines.take i, (readText line').result = .ok ()) ∧
      (readText t).result = .error (.tooManyDigits n) ∧
      ds <:+: line ∧ (∀ c ∈ ds, isDigit c) ∧ Number.digitLimit < ds.length ∧ n = ds.length := by
  by_cases hok : ∀ line ∈ t.lines, (readText line).result = .ok ()
  · rw [tokenize_of_readText_ok (readText_of_lines_ok hok).1] at h
    split at h <;> cases h
  · obtain ⟨i, line, e, hline, hbefore, he⟩ := exists_first_failure hok
    rw [tokenize_of_first_failure hline hbefore he] at h
    cases e with
    | diagnosed d => cases h
    | tooManyDigits n =>
      cases h
      have hlines (line : Text) (h : line ∈ t.lines) : '\n' ∉ line :=
        Text.newline_not_mem_of_mem_lines h
      have hread := (runFrom_lines_error (at_ofText t) hlines hline hbefore he).1
      -- alone the line fails for its digits too, and not for a directive of the preprocessor
      rcases failsIn_runFrom .initial (ofText line) with ⟨d, hd⟩ | hfails
      · cases he.symm.trans hd
      · obtain hdigits := hfails _ he
        generalize hfailure : Failure.tooManyDigits n = e at hdigits
        cases hdigits with
        | fault => cases hfailure
        | @digits ds hds hall hmany =>
          cases hfailure
          exact ⟨i, line, ds, hline, hbefore, hread, hds, hall, hmany, rfl⟩

/-- Reading a program ends in one of three ways. It has tokens, and the machine has them. Or a
failure is diagnosed: a place is told for it, and the machine has no tokens. Or the first line that
cannot be read has a decimal number with more digits than the limit: no place is told for it, and
the machine keeps the tokens of the lines in front. This is said of texts of Unicode scalar values;
a lone surrogate in a string would be one more way to end, since it has no bytes in UTF-8. -/
theorem tokens?_ends (t : Text) :
    (∃ ts, (tokens?.run (ofText t)).result = .ok ts ∧
      (tokens?.run (ofText t)).state.tokens.toList = ts) ∨
    (∃ d, (tokens?.run (ofText t)).result = .error (.diagnosed d) ∧ d.report.place ≠ "" ∧
      (tokens?.run (ofText t)).state.tokens = #[]) ∨
    ∃ (i : Nat) (line ds : Text), t.lines[i]? = some line ∧
      (∀ line' ∈ t.lines.take i, (readText line').result = .ok ()) ∧
      ds <:+: line ∧ (∀ c ∈ ds, isDigit c) ∧ Number.digitLimit < ds.length ∧
      (tokens?.run (ofText t)).result = .error (.tooManyDigits ds.length) ∧
      ((t.lines.take i).zipIdx 1).flatMap (fun p => tokensOnLine p.2 p.1) <+:
        (tokens?.run (ofText t)).state.tokens.toList := by
  cases h : (tokens?.run (ofText t)).result with
  | ok ts => exact .inl ⟨ts, rfl, state_tokens?_of_ok h⟩
  | error e =>
    cases e with
    | diagnosed d =>
      obtain ⟨i, line, -, hplace, -⟩ := tokenize_diagnosed h
      exact .inr (.inl ⟨d, rfl, d.place_ne_empty hplace, state_tokens?_of_diagnosed h⟩)
    | tooManyDigits n =>
      obtain ⟨i, line, ds, hline, hbefore, hread, hds, hall, hmany, rfl⟩ :=
        exists_line_of_tooManyDigits h
      have hi : i < t.lines.length := (List.getElem?_eq_some_iff.mp hline).1
      have hlines (line : Text) (h : line ∈ t.lines) : '\n' ∉ line :=
        Text.newline_not_mem_of_mem_lines h
      have hkeeps := isPrefix_tokens_lines (at_ofText t) hlines hi hbefore
      refine .inr (.inr ⟨i, line, ds, hline, hbefore, hds, hall, hmany, rfl, ?_⟩)
      rw [(tokens?_tooManyDigits hread).2]
      simpa [readText] using hkeeps

set_option maxRecDepth 100000 in
/-- A number of one digit too many: no place is told, and the token in front of it stays. -/
theorem tokens?_word_tooManyDigits :
    (tokens?.run (ofText ("nop\n.word ".toList ++ List.replicate 4301 '1'))).result =
      .error (.tooManyDigits 4301) ∧
    (tokens?.run (ofText ("nop\n.word ".toList ++ List.replicate 4301 '1'))).state.tokens.size =
      1 := by
  constructor
  · decide +kernel
  · decide +kernel

end Lexer

end MipsAsm
