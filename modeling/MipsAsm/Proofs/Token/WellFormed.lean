import MipsAsm.Proofs.Operand.Parameters
import MipsAsm.Proofs.Token.Origin

/-!
# Tokens are well formed

What later stages rely on holds of each token of a program: labels are identifiers, directives are
those that lay out data or place it, and the parameters of an instruction are those that its shape
asks for (`tokenize_wellFormed`).
-/

namespace MipsAsm

open Scan

/-! ### Instructions of a mnemonic -/

namespace Instruction

variable {i : Instruction} {w : Text} {table : List Instruction}

lemma mem_of_find? (h : find? table w = some i) : i ∈ table ∧ i.spelling.toList = w := by
  rw [find?] at h
  exact ⟨List.mem_of_find?_eq_some h, by simpa using List.find?_some h⟩

/-- Candidates stand in a table under the mnemonic. -/
lemma mem_candidates (h : i ∈ candidates w) :
    i ∈ machineTable ++ pseudoTable ∧ i.spelling.toList = w.lower := by
  rw [candidates, List.mem_append, Option.mem_toList, Option.mem_toList] at h
  rcases h with h | h
  · exact ⟨List.mem_append_left _ (mem_of_find? h).1, (mem_of_find? h).2⟩
  · exact ⟨List.mem_append_right _ (mem_of_find? h).1, (mem_of_find? h).2⟩

/-- There is one jump of that name in the tables. -/
lemma eq_jalr_of_mem (h : i ∈ machineTable ++ pseudoTable)
    (hi : i.spelling.toList = "jalr".toList) : i = jalr := by
  have htables : ∀ i ∈ machineTable ++ pseudoTable,
      i.spelling.toList = "jalr".toList → i = jalr := by
    decide +kernel
  exact htables i h hi

/-- An instruction with its parameters, as a word names it. -/
structure Fits (word : Text) (i : Instruction) (p : Parameters) : Prop where
  known      : i ∈ machineTable ++ pseudoTable ∨ i = jalrRa
  spelling   : i.spelling.toList = word.lower
  shape      : p.shape ∈ i.shapes
  jalrRa_iff : i = jalrRa ↔ word.lower = "jalr".toList ∧ p.shape = .reg
  filledBy   : p.FilledBy p.shape.slots

/-- A candidate fits once it is refined. -/
lemma fits_refine {p : Parameters} (hi : i ∈ candidates w) (hshape : p.shape ∈ i.shapes)
    (hp : p.FilledBy p.shape.slots) : (i.refine p.shape).Fits w p := by
  obtain ⟨hmem, hspelling⟩ := mem_candidates hi
  by_cases hjalr : i = jalr ∧ p.shape = .reg
  · obtain ⟨rfl, hreg⟩ := hjalr
    rw [refine, if_pos ⟨rfl, hreg⟩]
    exact {
      known      := .inr rfl
      spelling   := hspelling
      shape      := by rw [hreg]; exact List.mem_singleton_self _
      jalrRa_iff := by simp only [true_iff]; exact ⟨hspelling.symm, hreg⟩
      filledBy   := hp }
  · -- every other instruction is left as it is
    rw [refine, if_neg hjalr]
    refine ⟨.inl hmem, hspelling, hshape, ⟨?_, ?_⟩, hp⟩
    · rintro rfl
      exact absurd (eq_jalr_of_mem hmem rfl) (by decide)
    · rintro ⟨hw, hreg⟩
      exact absurd ⟨eq_jalr_of_mem hmem (hspelling.trans hw), hreg⟩ hjalr

end Instruction

/-! ### Statements -/

/-- A statement that may become a token. -/
def Statement.WellFormed : Statement → Prop
  | .label name        => isIdentifier name
  | .directive d _ _   => ¬ d.ofPreprocessor ∧ d ≠ .set
  | .instruction w i p => i.Fits w p

/-- Whatever statements come out are the directive, with its arguments and its data. -/
def Yields (d : Directive) (x : Except Failure (List Statement)) : Prop :=
  ∀ ss, x = .ok ss → ∀ s ∈ ss, ∃ arguments data, s = .directive d arguments data

namespace Yields

variable {α : Type} {d : Directive}

lemma one (arguments : List Argument) (data : List UInt8) :
    Yields d (.ok [.directive d arguments data]) := by
  rintro ss ⟨⟩ s hs
  exact ⟨arguments, data, List.mem_singleton.mp hs⟩

lemma error (e : Failure) : Yields d (.error e) := nofun

lemma bind {x : Except Failure α} {f : α → Except Failure (List Statement)}
    (hf : ∀ a, Yields d (f a)) : Yields d (x >>= f) := by
  cases x with
  | error e => exact error e
  | ok a => exact hf a

end Yields

open Yields

lemma yields_integerStatement (d : Directive) (t : Text) : Yields d (integerStatement d t) := by
  refine bind fun arguments => ?_
  split
  · exact error _
  · exact bind fun _ => one _ _

lemma yields_floatStatement (d : Directive) (t : Text) : Yields d (floatStatement d t) := by
  refine bind fun arguments => ?_
  split
  · exact error _
  · exact one _ _

lemma yields_stringStatement (d : Directive) (t : Text) : Yields d (stringStatement d t) := by
  refine bind fun ops => ?_
  split
  · exact error _
  · exact error _
  · exact bind fun _ => one _ _

lemma yields_alignStatement (d : Directive) (t : Text) : Yields d (alignStatement d t) := by
  refine bind fun n => ?_
  split
  · exact one _ _
  · exact error _

lemma yields_spaceStatement (d : Directive) (t : Text) : Yields d (spaceStatement d t) := by
  refine bind fun n => ?_
  split
  · exact error _
  · exact one _ _

lemma yields_sectionStatement (d : Directive) (t : Text) : Yields d (sectionStatement d t) := by
  refine bind fun arguments => ?_
  dsimp only
  split
  · exact error _
  · exact bind fun _ => one _ _

lemma yields_globalStatement (d : Directive) (t : Text) : Yields d (globalStatement d t) := by
  refine bind fun ops => ?_
  split
  · exact error _
  · exact error _
  · exact one _ _

lemma yields_externalStatement (d : Directive) (t : Text) : Yields d (externalStatement d t) := by
  refine bind fun ops => ?_
  split
  · exact one _ _
  · exact error _

/-- The statements of a directive are well formed. The preprocessor's directives and `.set` have
none. -/
lemma Directive.wellFormed_of_statements {d : Directive} {t : Text} {ss : List Statement}
    {s : Statement} (h : d.statements t = .ok ss) (hs : s ∈ ss) : s.WellFormed := by
  have hyields : (¬ d.ofPreprocessor ∧ d ≠ .set) ∧ Yields d (d.statements t) := by
    cases d with
    | byte | half | word => exact ⟨by decide, yields_integerStatement _ t⟩
    | float | double => exact ⟨by decide, yields_floatStatement _ t⟩
    | ascii | asciiz => exact ⟨by decide, yields_stringStatement _ t⟩
    | align => exact ⟨by decide, yields_alignStatement _ t⟩
    | space => exact ⟨by decide, yields_spaceStatement _ t⟩
    | data | kdata | text | ktext => exact ⟨by decide, yields_sectionStatement _ t⟩
    | globl => exact ⟨by decide, yields_globalStatement _ t⟩
    | external => exact ⟨by decide, yields_externalStatement _ t⟩
    | set =>
      cases h
      cases hs
    | includeFile | eqv | beginMacro | endMacro => cases h
  obtain ⟨arguments, data, rfl⟩ := hyields.2 ss h s hs
  exact hyields.1

/-! ### Moves -/

namespace Lexer

variable {mode : Mode} {l : Lexer}

lemma firstCandidate_some {operands : Text} {is : List Instruction} {i : Instruction}
    {p : Parameters} (h : firstCandidate operands is = .ok (some (i, p))) :
    ∃ i' ∈ is, matchOperands operands i'.shapes = .ok (some p) ∧ i = i'.refine p.shape := by
  induction is with
  | nil => cases h
  | cons i' is ih =>
    rw [firstCandidate] at h
    rcases hp : matchOperands operands i'.shapes with e | _ | p' <;> rw [hp] at h
    · cases h
    -- the operands are none of this one's, and the next one is tried
    · obtain ⟨i'', hmem, hi''⟩ := ih h
      exact ⟨i'', List.mem_cons_of_mem i' hmem, hi''⟩
    · cases h
      exact ⟨i', List.mem_cons_self, hp, rfl⟩

/-- All tokens so far are well formed. -/
def AllWellFormed (l : Lexer) : Prop := ∀ tok ∈ l.tokens.toList, tok.statement.WellFormed

lemma AllWellFormed.advance (h : l.AllWellFormed) (n : Nat) : (l.advance n).AllWellFormed := h

lemma AllWellFormed.emit (h : l.AllWellFormed) {ss : List Statement}
    (hss : ∀ s ∈ ss, s.WellFormed) : (l.emit ss).AllWellFormed := by
  intro tok htok
  rw [Lexer.emit, Array.toList_append, List.mem_append] at htok
  rcases htok with hold | hnew
  · exact h tok hold
  · obtain ⟨s, hs, rfl⟩ := List.mem_map.mp hnew
    exact hss s hs

lemma wellFormed_readInitial (h : l.AllWellFormed) : (readInitial l).state.AllWellFormed := by
  unfold readInitial
  dsimp only
  split
  · exact h
  · exact h

lemma wellFormed_readComment (h : l.AllWellFormed) : (readComment l).state.AllWellFormed := by
  rw [readComment]
  split
  · exact h
  · exact h.advance _

lemma wellFormed_readDirective (h : l.AllWellFormed) : (readDirective l).state.AllWellFormed := by
  rw [readDirective]
  dsimp only
  split
  · exact h
  · next d _ =>
    split
    · exact h
    · next ss hss => exact (h.emit fun s => d.wellFormed_of_statements hss).advance _

lemma wellFormed_readStatement (h : l.AllWellFormed) : (readStatement l).state.AllWellFormed := by
  rw [readStatement]
  split
  · exact h
  · split
    · exact h
    · next c r _ =>
      dsimp only
      split
      · exact h
      · split
        · exact h
        · exact h
        · next i p hfirst =>
          obtain ⟨i', hi', hp, rfl⟩ := firstCandidate_some hfirst
          obtain ⟨hshape, hfilled, -⟩ := filledBy_of_matchOperands hp
          refine (h.emit fun s hs => ?_).advance _
          cases List.mem_singleton.mp hs
          exact Instruction.fits_refine hi' hshape hfilled

lemma wellFormed_readLabel (h : l.AllWellFormed) : (readLabel l).state.AllWellFormed := by
  unfold readLabel
  dsimp only
  split
  · next hname =>
    refine (h.emit fun s hs => ?_).advance _
    cases List.mem_singleton.mp hs
    exact hname
  · exact h

/-- A move adds well-formed tokens only. -/
lemma wellFormed_step (h : l.AllWellFormed) : (step mode l).state.AllWellFormed := by
  cases mode with
  | initial => exact wellFormed_readInitial h
  | comment => exact wellFormed_readComment h
  | directive => exact wellFormed_readDirective h
  | statement => exact wellFormed_readStatement h
  | label => exact wellFormed_readLabel h

/-- However far a run comes, its tokens are well formed. -/
lemma wellFormed_runFrom (h : l.AllWellFormed) : (runFrom mode l).state.AllWellFormed := by
  rw [state_runFrom]
  induction mode, l using run_induction with
  | fails mode l e hstep =>
    rw [hstep]
    exact wellFormed_step h
  | ends mode l hstep =>
    rw [hstep]
    exact wellFormed_step h
  | moves mode l next hstep ih =>
    rw [hstep]
    dsimp only
    rw [state_runFrom]
    exact ih (wellFormed_step h)

end Lexer

/-! ### Programs -/

/-- The index of a label is no matter of well-formedness. -/
lemma Token.wellFormed_resolve {program : List Token} {tok : Token}
    (h : tok.statement.WellFormed) : (tok.resolve program).statement.WellFormed := by
  obtain ⟨n, statement⟩ := tok
  cases statement with
  | label name => exact h
  | directive d arguments data => exact h
  | instruction w i p =>
    obtain ⟨hknown, hspelling, hshape, hjalr, hfilled⟩ := h
    exact ⟨hknown, hspelling, hshape, hjalr, { hfilled with }⟩

/-- Each token of a program is well formed. -/
theorem tokenize_wellFormed {t : Text} {ts : List Token} (h : tokenize t = .ok ts) :
    ∀ tok ∈ ts, tok.statement.WellFormed := by
  obtain ⟨-, hresolve⟩ := Lexer.tokenize_eq_ok_iff.mp h
  obtain ⟨-, rfl⟩ := Token.resolveLabels_eq_ok_iff.mp hresolve
  have hread : (Lexer.readText t).state.AllWellFormed :=
    Lexer.wellFormed_runFrom (fun tok htok => nomatch htok)
  intro tok htok
  obtain ⟨tok, hmem, rfl⟩ := List.mem_map.mp htok
  exact Token.wellFormed_resolve (hread tok hmem)

/-- A jump that links into `$ra`, and a load of a pseudoinstruction with a negative offset. -/
theorem tokenize_wellFormed_jalr :
    tokenize "é.b: .half 1\n.set at\nJALR $t0\nl.d $f31, x - 4($SP)".toList = .ok
      [⟨1, .label "é.b".toList⟩, ⟨1, .directive .half [.int 1] [1, 0]⟩,
        ⟨3, .instruction "JALR".toList .jalrRa { shape := .reg, reg1 := some 8 }⟩,
        ⟨4, .instruction "l.d".toList (.pseudo "l.d" Instruction.memory)
          { shape := .regLabelOffsetBase, reg1 := some 31, reg2 := some 29, label := some ['x'],
            offset := 0xFFFFFFFC }⟩] ∧
    isIdentifier "é.b".toList ∧
    Instruction.Fits "JALR".toList .jalrRa { shape := .reg, reg1 := some 8 } ∧
    Instruction.Fits "l.d".toList (.pseudo "l.d" Instruction.memory)
      { shape := .regLabelOffsetBase, reg1 := some 31, reg2 := some 29, label := some ['x'],
        offset := 0xFFFFFFFC } := by
  have h : tokenize "é.b: .half 1\n.set at\nJALR $t0\nl.d $f31, x - 4($SP)".toList = .ok
      [⟨1, .label "é.b".toList⟩, ⟨1, .directive .half [.int 1] [1, 0]⟩,
        ⟨3, .instruction "JALR".toList .jalrRa { shape := .reg, reg1 := some 8 }⟩,
        ⟨4, .instruction "l.d".toList (.pseudo "l.d" Instruction.memory)
          { shape := .regLabelOffsetBase, reg1 := some 31, reg2 := some 29, label := some ['x'],
            offset := 0xFFFFFFFC }⟩] := by
    decide +kernel
  obtain ⟨hlabel, -, hjalr, hload, -⟩ := by
    simpa only [List.forall_mem_cons] using tokenize_wellFormed h
  exact ⟨h, hlabel, hjalr, hload⟩

end MipsAsm
