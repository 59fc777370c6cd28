import MipsAsm.Proofs.Operand.Written
import MipsAsm.Proofs.Token.Locality

/-!
# How statements are read

The machine goes on behind a label, a directive or an instruction, with the tokens of the statement
added on its line: `Lexer.continues_label`, `Lexer.continues_directive` and
`Lexer.continues_instruction`. At the end of a text the run ends there (`Lexer.Continues.ends`).
-/

namespace MipsAsm

open Scan

/-! ### Characters of identifiers -/

namespace Scan

variable {c : Char} {w : Text}

lemma isIdentifierPart_of_isIdentifierStart (h : isIdentifierStart c) : isIdentifierPart c := by
  rw [isIdentifierStart, Bool.or_eq_true, Bool.and_eq_true] at h
  rw [isIdentifierPart, Bool.or_assoc, Bool.or_eq_true, Bool.or_eq_true]
  rcases h with ⟨hword, -⟩ | hemoji
  · exact .inl hword
  · exact .inr (.inr hemoji)

lemma isIdentifierPart_of_mem (h : isIdentifier w) : ∀ c ∈ w, isIdentifierPart c := by
  cases w with
  | nil => exact nofun
  | cons c w =>
    rw [isIdentifier, Bool.and_eq_true, List.all_eq_true] at h
    rw [List.forall_mem_cons]
    exact ⟨isIdentifierPart_of_isIdentifierStart h.1, h.2⟩

/-- An identifier is one word. -/
lemma not_isSeparator_of_isIdentifier (h : isIdentifier w) : ∀ c ∈ w, ¬ isSeparator c := by
  have hclass : separators.all fun c => !isIdentifierPart c := by decide +kernel
  intro c hc hsep
  have := List.all_eq_true.mp hclass c (List.contains_iff_mem.mp hsep)
  rw [isIdentifierPart_of_mem h c hc] at this
  cases this

lemma newline_not_mem_of_isIdentifier (h : isIdentifier w) : '\n' ∉ w :=
  fun hmem => not_isSeparator_of_isIdentifier h _ hmem rfl

/-- The codes of blanks. -/
def blankCodes : List Nat :=
  List.range' 9 5 ++ List.range' 0x1C 5 ++ List.range' 0x2000 11 ++
    [0x85, 0xA0, 0x1680, 0x2028, 0x2029, 0x202F, 0x205F, 0x3000]

lemma mem_blankCodes (h : isBlank c) : c.toNat ∈ blankCodes := by
  simp only [isBlank, Bool.or_eq_true, Bool.and_eq_true, decide_eq_true_eq, beq_iff_eq] at h
  simp only [blankCodes, List.mem_append, List.mem_range'_1, List.mem_cons, List.not_mem_nil]
  omega

lemma not_isBlank_of_isIdentifierStart (h : isIdentifierStart c) : ¬ isBlank c := by
  have hclass : blankCodes.all fun n => !isIdentifierStart (Char.ofNat n) := by decide +kernel
  intro hblank
  have := List.all_eq_true.mp hclass _ (mem_blankCodes hblank)
  rw [Char.ofNat_toNat, h] at this
  cases this

end Scan

/-! ### Reading -/

namespace Lexer

variable {l : Lexer} {read w t : Text} {ts : Array Token}

/-- A statement without blanks in front is begun. -/
lemma readInitial_of_not_isBlank {c : Char} {mode : Mode} (hc : ¬ isBlank c)
    (hmode : modeOf c = .ok mode) (hrest : l.rest = c :: t) :
    readInitial l = ⟨.ok (some mode), { l with start := l.pos }, []⟩ := by
  have hblank : l.rest.takeWhile isBlank = [] := by
    rw [hrest]
    exact List.takeWhile_cons_of_neg hc
  have hskip : l.skipBlanks = l := by
    rw [skipBlanks, hblank]
    rfl
  rw [readInitial_of_cons (by rw [hskip, hrest]), hskip, hmode]
  rfl

/-- A statement that begins with an identifier begins with a word. -/
lemma readInitial_of_isIdentifier (hw : isIdentifier w) (hrest : l.rest = w ++ t) :
    readInitial l = ⟨.ok (some .statement), { l with start := l.pos }, []⟩ := by
  cases w with
  | nil => cases hw
  | cons c w =>
    rw [isIdentifier, Bool.and_eq_true] at hw
    have hcomment : c ≠ '#' := (isPlain_of_isIdentifierStart c hw.1).1
    have hdot : c ≠ '.' := by
      rintro rfl
      exact absurd hw.1 (by decide +kernel)
    have hdigit := isDigit_of_isIdentifierStart hw.1
    have hmode : modeOf c = .ok .statement := by
      rw [modeOf, if_neg hcomment, if_neg hdot, if_neg (Bool.eq_false_iff.mp hdigit)]
    exact readInitial_of_not_isBlank (not_isBlank_of_isIdentifierStart hw.1) hmode hrest

/-- An identifier in front of a colon is read as a label. -/
lemma continues_label (hw : isIdentifier w) (h : At read (w ++ ':' :: t) ts l) :
    ∃ l', Continues .initial l l' ∧
      At (read ++ (w ++ [':'])) t (ts ++ #[⟨read.count '\n' + 1, .label w⟩]) l' := by
  have hsep := not_isSeparator_of_isIdentifier hw
  have hstop : ∀ c ∈ (':' :: t).head?, isSeparator c := by
    rintro c ⟨⟩
    rfl
  have hfirst : firstWord l.rest = w := by rw [h.rest, firstWord_word hsep hstop]
  have hafter : afterWord l.rest = ':' :: t := by rw [h.rest, afterWord_word hsep hstop]
  have htag : isTag l.rest := by
    rw [isTag, hfirst, hafter]
    cases w with
    | nil => cases hw
    | cons c w => rfl
  have hstatement : readStatement { l with start := l.pos } =
      ⟨.ok (some .label), { l with start := l.pos }, []⟩ := if_pos htag
  have hlabel : readLabel { l with start := l.pos } =
      ⟨.ok (some .initial), ({ l with start := l.pos }.emit [.label w]).advance (w ++ [':']).length,
        []⟩ := by
    have hname : firstWord ({ l with start := l.pos } : Lexer).rest = w := hfirst
    rw [readLabel, hname, List.length_append]
    exact if_pos hw
  refine ⟨_, .of_step_eq (readInitial_of_isIdentifier hw h.rest)
    (.of_step_eq hstatement (.of_step_eq hlabel ⟨rfl, rfl⟩)), At.advance ?_⟩
  rw [List.append_assoc]
  exact h.emit [.label w]

/-- A word with operands of an instruction that it names is read as the instruction. -/
lemma continues_instruction {i : Instruction} {is : List Instruction} {p : Parameters}
    (hw : isIdentifier w) (ht : ∀ c ∈ t.head?, isSeparator c ∧ c ≠ ':') (hline : '\n' ∉ t)
    (hcandidates : Instruction.candidates w = i :: is)
    (hoperands : matchOperands (operandText t) i.shapes = .ok (some p))
    (h : At read (w ++ t) ts l) :
    ∃ l', Continues .initial l l' ∧
      At (read ++ (w ++ t)) []
        (ts ++ #[⟨read.count '\n' + 1, .instruction w (i.refine p.shape) p⟩]) l' := by
  have hsep := not_isSeparator_of_isIdentifier hw
  have hstop : ∀ c ∈ t.head?, isSeparator c := fun c hc => (ht c hc).1
  have hfirst : firstWord l.rest = w := by rw [h.rest, firstWord_word hsep hstop]
  have hafter : afterWord l.rest = t := by rw [h.rest, afterWord_word hsep hstop]
  have htag : isTag l.rest = false := by
    rw [isTag, hafter, Bool.and_eq_false_iff]
    exact .inr (beq_eq_false_iff_ne.mpr fun hcolon => (ht ':' hcolon).2 rfl)
  have hlength : lineLength l.rest = (w ++ t).length := by
    rw [h.rest, lineLength_eq_length]
    rw [List.mem_append, not_or]
    exact ⟨newline_not_mem_of_isIdentifier hw, hline⟩
  have hfirstCandidate :
      firstCandidate (operandText t) (i :: is) = .ok (some (i.refine p.shape, p)) := by
    rw [firstCandidate, hoperands]
    rfl
  have hstatement : readStatement { l with start := l.pos } =
      ⟨.ok (some .initial),
        ({ l with start := l.pos }.emit [.instruction w (i.refine p.shape) p]).advance
          (w ++ t).length,
        [.operandsMatched (operandText t) p.shape,
          .instructionRead ({ l with start := l.pos } : Lexer).line (i.refine p.shape)
            p.shape]⟩ := by
    cases w with
    | nil => cases hw
    | cons c w =>
      rw [← hlength]
      simp only [readStatement, htag, hfirst, hafter, hcandidates, hfirstCandidate]
      rfl
  refine ⟨_, .of_step_eq (readInitial_of_isIdentifier hw h.rest)
    (.of_step_eq hstatement ⟨rfl, rfl⟩), At.advance ?_⟩
  rw [List.append_nil]
  exact h.emit [.instruction w (i.refine p.shape) p]

/-- A directive with its operands is read as the statements that it yields. -/
lemma continues_directive {d : Directive} {ss : List Statement} (hdot : t.head? = some '.')
    (hline : '\n' ∉ t) (hword : Directive.ofWord? (firstWord t) = some d)
    (hss : d.statements (operandText (afterWord t)) = .ok ss) (h : At read t ts l) :
    ∃ l', Continues .initial l l' ∧
      At (read ++ t) [] (ts ++ (ss.map (Token.mk (read.count '\n' + 1))).toArray) l' := by
  obtain ⟨r, rfl⟩ := List.head?_eq_some_iff.mp hdot
  have hinitial : readInitial l = ⟨.ok (some .directive), { l with start := l.pos }, []⟩ :=
    readInitial_of_not_isBlank (by decide) rfl h.rest
  have hdirective : readDirective { l with start := l.pos } =
      ⟨.ok (some .initial), ({ l with start := l.pos }.emit ss).advance ('.' :: r).length,
        directiveEvents d ({ l with start := l.pos } : Lexer).line
          (operandText (afterWord ('.' :: r)))⟩ := by
    rw [← lineLength_eq_length hline]
    simp only [readDirective, h.rest, hword, hss]
  refine ⟨_, .of_step_eq hinitial (.of_step_eq hdirective ⟨rfl, rfl⟩), At.advance ?_⟩
  rw [List.append_nil]
  exact h.emit ss

end Lexer

end MipsAsm
