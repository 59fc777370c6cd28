import MipsAsm.Proofs.Result
import MipsAsm.Proofs.Token.Locality

/-!
# Where tokens and failures come from

The tokens of a program are those that its lines have when they are read alone, and a diagnosed
failure is that of a line that is read alone, or a label on a line whose name is taken
(`tokenize_ok`, `tokenize_diagnosed`).
-/

namespace MipsAsm

lemma Diagnostic.atLine_of_line {d : Diagnostic} {k : Nat} (h : d.location = .line k) (n : Nat) :
    d.atLine n = d := by
  simp only [Diagnostic.atLine, h]

/-- A label whose name is taken is a token of the program. -/
lemma Token.mem_of_duplicateLabel? {seen : List Text} {ts : List Token} {n : Nat} {name : Text}
    (h : duplicateLabel? seen ts = some (n, name)) : ⟨n, .label name⟩ ∈ ts := by
  induction ts generalizing seen with
  | nil => cases h
  | cons t ts ih =>
    obtain ⟨line, statement⟩ := t
    cases statement with
    | label name' =>
      rw [duplicateLabel?] at h
      split at h
      · cases h
        exact List.mem_cons_self
      · exact List.mem_cons_of_mem _ (ih h)
    | directive d arguments data => exact List.mem_cons_of_mem _ (ih h)
    | instruction mnemonic i p => exact List.mem_cons_of_mem _ (ih h)

/-- Labels are resolved unless a name is taken. -/
lemma Token.resolveLabels_eq_ok_iff {ts ts' : List Token} : resolveLabels ts = .ok ts' ↔
    duplicateLabel? [] ts = none ∧ ts' = ts.map (resolve ts) := by
  rw [resolveLabels]
  cases duplicateLabel? [] ts with
  | none => simp [eq_comm]
  | some p => simp

namespace Lexer

variable {t line : Text} {ls : List Text} {n : Nat} {tok : Token} {ts : List Token} {d : Diagnostic}

/-- The tokens of a program, line by line, before labels are resolved. -/
def lineTokens (t : Text) : List Token := (t.lines.zipIdx 1).flatMap fun p => tokensOnLine p.2 p.1

/-- A token stands on a line of the program, which has it when it is read alone. -/
lemma exists_line_of_mem (h : tok ∈ lineTokens t) :
    ∃ i line, t.lines[i]? = some line ∧
      ∃ alone ∈ (readText line).state.tokens.toList, tok = alone.onLine (i + 1) := by
  obtain ⟨⟨line, n⟩, hp, htok⟩ := List.mem_flatMap.mp h
  obtain ⟨i, hi⟩ := List.getElem?_of_mem hp
  rw [List.getElem?_zipIdx, Option.map_eq_some_iff] at hi
  obtain ⟨line', hline, heq⟩ := hi
  cases heq
  obtain ⟨alone, halone, rfl⟩ := List.mem_map.mp htok
  exact ⟨i, line, hline, alone, halone, by rw [Nat.add_comm]⟩

/-- If not all lines can be read, there is a first one that cannot. -/
lemma exists_first_failure (h : ¬ ∀ line ∈ ls, (readText line).result = .ok ()) :
    ∃ (i : Nat) (line : Text) (e : Failure), ls[i]? = some line ∧
      (∀ line' ∈ ls.take i, (readText line').result = .ok ()) ∧
      (readText line).result = .error e := by
  induction ls with
  | nil => exact absurd (by simp) h
  | cons line ls ih =>
    cases hline : (readText line).result with
    | error e => exact ⟨0, line, e, rfl, by simp, hline⟩
    | ok u =>
      rw [List.forall_mem_cons, not_and] at h
      obtain ⟨i, line', e, hi, hbefore, he⟩ := ih (h hline)
      refine ⟨i + 1, line', e, hi, ?_, he⟩
      rw [List.take_succ_cons, List.forall_mem_cons]
      exact ⟨hline, hbefore⟩

/-- When a program is read, what is left is to resolve its labels. -/
lemma tokenize_of_readText_ok (h : (readText t).result = .ok ()) :
    tokenize t =
      match Token.resolveLabels (readText t).state.tokens.toList with
      | .error d => .error (.diagnosed (d.atLine (readText t).state.line))
      | .ok ts   => .ok ts := by
  have hrun : (runFrom .initial (ofText t)).result = .ok () := h
  cases hresolve : Token.resolveLabels (readText t).state.tokens.toList with
  | error d =>
    have hlabels : Token.resolveLabels (runFrom .initial (ofText t)).state.tokens.toList =
        .error d := hresolve
    unfold tokenize tokens?
    simp only [hrun, hlabels]
    rfl
  | ok ts =>
    have hlabels : Token.resolveLabels (runFrom .initial (ofText t)).state.tokens.toList =
        .ok ts := hresolve
    unfold tokenize tokens?
    simp only [hrun, hlabels]

/-- A program has tokens exactly if it is read and its labels are resolved. -/
lemma tokenize_eq_ok_iff : tokenize t = .ok ts ↔
    (readText t).result = .ok () ∧
      Token.resolveLabels (readText t).state.tokens.toList = .ok ts := by
  cases hread : (readText t).result with
  | error e => simp [tokenize_eq_error hread]
  | ok u =>
    rw [tokenize_of_readText_ok hread]
    cases Token.resolveLabels (readText t).state.tokens.toList <;> simp

lemma readText_of_lines_ok (h : ∀ line ∈ t.lines, (readText line).result = .ok ()) :
    (readText t).result = .ok () ∧ (readText t).state.tokens.toList = lineTokens t := by
  have hlines (line : Text) (hline : line ∈ t.lines) : '\n' ∉ line :=
    Text.newline_not_mem_of_mem_lines hline
  have := runFrom_lines_ok (at_ofText t) (Text.lines_ne_nil t) hlines h
  simpa [readText, lineTokens] using this

/-- When its lines are read, a program has the tokens of its lines, with labels resolved. -/
lemma tokenize_of_lines_ok (h : ∀ line ∈ t.lines, (readText line).result = .ok ()) :
    tokenize t = (Token.resolveLabels (lineTokens t)).mapError .diagnosed := by
  obtain ⟨hread, htokens⟩ := readText_of_lines_ok h
  rw [tokenize_of_readText_ok hread, htokens, Token.resolveLabels]
  cases Token.duplicateLabel? [] (lineTokens t) with
  | none => rfl
  | some p => exact congrArg (Except.error ∘ Failure.diagnosed) (Diagnostic.atLine_of_line rfl _)

lemma tokenize_of_first_failure {i : Nat} {e : Failure} (hline : t.lines[i]? = some line)
    (hbefore : ∀ line' ∈ t.lines.take i, (readText line').result = .ok ())
    (he : (readText line).result = .error e) : tokenize t = .error (e.onLine (i + 1)) := by
  have hlines (line : Text) (h : line ∈ t.lines) : '\n' ∉ line :=
    Text.newline_not_mem_of_mem_lines h
  obtain ⟨hresult, hnumber⟩ := runFrom_lines_error (at_ofText t) hlines hline hbefore he
  have hnumber : (readText t).state.line = i + 1 := by
    simpa [readText, Nat.add_comm] using hnumber
  rw [tokenize_eq_error hresult, hnumber]

/-- A token of a program is one of a line that is read alone, in its place and with its label
resolved. -/
theorem tokenize_ok (h : tokenize t = .ok ts) (htok : tok ∈ ts) :
    ∃ i line, t.lines[i]? = some line ∧ ∃ alone ∈ (readText line).state.tokens.toList,
      tok = (alone.onLine (i + 1)).resolve (lineTokens t) := by
  by_cases hok : ∀ line ∈ t.lines, (readText line).result = .ok ()
  · rw [tokenize_of_lines_ok hok, mapError_eq_ok, Token.resolveLabels_eq_ok_iff] at h
    obtain ⟨-, rfl⟩ := h
    obtain ⟨tok, hmem, rfl⟩ := List.mem_map.mp htok
    obtain ⟨i, line, hline, alone, halone, rfl⟩ := exists_line_of_mem hmem
    exact ⟨i, line, hline, alone, halone, rfl⟩
  · obtain ⟨i, line, e, hline, hbefore, he⟩ := exists_first_failure hok
    cases h.symm.trans (tokenize_of_first_failure hline hbefore he)

/-- A diagnosed failure of a program is told for a line: for one that fails so when it is read
alone, or for one with a label whose name is taken. -/
theorem tokenize_diagnosed (h : tokenize t = .error (.diagnosed d)) :
    ∃ i line, t.lines[i]? = some line ∧ d.location = .line (i + 1) ∧
      ((∃ e, (readText line).result = .error (.diagnosed e) ∧ d.fault = e.fault) ∨
        ∃ name, d.fault = .duplicateLabel name ∧
          ∃ tok ∈ (readText line).state.tokens.toList, tok.statement = .label name) := by
  by_cases hok : ∀ line ∈ t.lines, (readText line).result = .ok ()
  · rw [tokenize_of_lines_ok hok, Token.resolveLabels] at h
    cases hduplicate : Token.duplicateLabel? [] (lineTokens t) with
    | none =>
      rw [hduplicate] at h
      cases h
    | some p =>
      obtain ⟨n, name⟩ := p
      rw [hduplicate] at h
      cases h
      obtain ⟨i, line, hline, alone, halone, hlabel⟩ :=
        exists_line_of_mem (Token.mem_of_duplicateLabel? hduplicate)
      obtain ⟨rfl, hstatement⟩ := Token.mk.inj hlabel
      exact ⟨i, line, hline, rfl, Or.inr ⟨name, rfl, alone, halone, hstatement.symm⟩⟩
  · obtain ⟨i, line, e, hline, hbefore, he⟩ := exists_first_failure hok
    rw [tokenize_of_first_failure hline hbefore he] at h
    cases e with
    | tooManyDigits n => cases h
    | diagnosed e =>
      cases h
      exact ⟨i, line, hline, rfl, Or.inl ⟨e, he, rfl⟩⟩

end Lexer

end MipsAsm
