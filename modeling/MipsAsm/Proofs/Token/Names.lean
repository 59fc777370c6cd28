import MipsAsm.Proofs.Operand.Parameters
import MipsAsm.Proofs.Operand.Spacing
import MipsAsm.Proofs.Text.Trim
import MipsAsm.Proofs.Token.Labels
import MipsAsm.Proofs.Token.Statement
import MipsAsm.Proofs.Token.WellFormed

/-!
# Names

The machine takes a name in front of a colon for a label if it is an identifier, and the lexer of
operands has a rule for labels. They agree on all texts: what can be defined can be referenced, and
nothing else (`isIdentifier_names`).
-/

namespace MipsAsm

open Scan

/-! ### A label and a jump to it -/

lemma Token.labelIndex?_cons_self (n : Nat) (name : Text) (ts : List Token) :
    labelIndex? (⟨n, .label name⟩ :: ts) name = some 0 := by
  rw [labelIndex?, List.findIdx?_cons, if_pos (by simp [Statement.labelName?])]

section

variable {w : Text}

lemma operandText_identifier (hw : isIdentifier w) : Lexer.operandText (' ' :: w) = ' ' :: w := by
  have hline : '\n' ∉ ' ' :: w := by
    rw [List.mem_cons, not_or]
    exact ⟨by decide, newline_not_mem_of_isIdentifier hw⟩
  have hplain : ∀ c ∈ ' ' :: w, IsPlain c := by
    rw [List.forall_mem_cons]
    exact ⟨by decide, fun c hc => isPlain_of_isIdentifierPart c (isIdentifierPart_of_mem hw c hc)⟩
  have hcomplete := complete_of_isPlain hplain
  rw [Lexer.operandText, restOfLine_eq_self hline, hcomplete.stripComment_eq_self]

/-- An identifier alone is a label. -/
lemma lexes_identifier (hw : isIdentifier w) : Lexes w [.label w] [] := lexes_label hw nofun

lemma matchOperands_identifier (hw : isIdentifier w) :
    matchOperands (' ' :: w) [.imm, .label] = .ok (some { shape := .label, label := some w }) := by
  have hspace : Lexes [' '] [] (w ++ []) := .spacing (List.forall_mem_singleton.mpr rfl) _
  rw [matchOperands, matchInOrder, (hspace.cons (lexes_identifier hw)).operands]
  rfl

/-- A label and a jump to it are read, the label unresolved. -/
lemma readText_jump (hw : isIdentifier w) :
    (Lexer.readText (w ++ ": j ".toList ++ w)).result = .ok () ∧
    (Lexer.readText (w ++ ": j ".toList ++ w)).state.tokens =
      #[⟨1, .label w⟩, ⟨1, .instruction ['j'] (.machine "j" [.imm, .label])
        { shape := .label, label := some w }⟩] := by
  have hline := newline_not_mem_of_isIdentifier hw
  have hcount : (w ++ [':'] ++ [' ']).count '\n' = 0 := by
    rw [List.count_eq_zero]
    simp [hline]
  have hstart : Lexer.At [] (w ++ ':' :: ([' '] ++ (['j'] ++ ' ' :: w))) #[]
      (Lexer.ofText (w ++ ": j ".toList ++ w)) := by
    rw [List.append_assoc]
    exact ⟨rfl, rfl, rfl, rfl⟩
  obtain ⟨l, hlabel, hat⟩ := Lexer.continues_label hw hstart
  have hblank := Lexer.continues_advance hat.rest Text.isBlank_of_mem_space
  have hstop : ∀ c ∈ (' ' :: w).head?, isSeparator c ∧ c ≠ ':' := by
    rintro c ⟨⟩
    decide
  have hline' : '\n' ∉ ' ' :: w := by simp [hline]
  have hj : isIdentifier ['j'] := by decide +kernel
  have hcandidates : Instruction.candidates ['j'] = [.machine "j" [.imm, .label]] := by
    decide +kernel
  have hmatch : matchOperands (Lexer.operandText (' ' :: w)) [.imm, .label] =
      .ok (some { shape := .label, label := some w }) := by
    rw [operandText_identifier hw, matchOperands_identifier hw]
  obtain ⟨l', hjump, hend⟩ := Lexer.continues_instruction hj hstop hline' hcandidates hmatch
    hat.advance
  have hends := (hlabel.trans (hblank.trans hjump)).ends hend
  rw [List.nil_append, hcount] at hends
  exact hends

end

/-- What can be defined can be referenced, and nothing else: the identifiers are the texts that are
one label for the lexer of operands, a jump to such a label is resolved, and no other labels are
defined or referenced, also not in front of a character at which the lexer fails. -/
theorem isIdentifier_names :
    (∀ w, isIdentifier w ↔ operands w = .ok [.label w]) ∧
    (∀ w, isIdentifier w → tokenize (w ++ ": j ".toList ++ w) = .ok
      [⟨1, .label w⟩,
        ⟨1, .instruction ['j'] (.machine "j" [.imm, .label])
          { shape := .label, label := some w, resolved := some 0 }⟩]) ∧
    (∀ t ts, tokenize t = .ok ts → ∀ name ∈ Token.labels ts, isIdentifier name) ∧
    (∀ t ops, operands t = .ok ops → ∀ name, .label name ∈ ops → isIdentifier name) ∧
    (∀ t, Rule.first? t = some .label → isIdentifier (t.take (Rule.extent .label t))) := by
  refine ⟨fun w => ⟨fun hw => (lexes_identifier hw).operands, fun h => ?_⟩, fun w hw => ?_,
    fun t ts h name hname => ?_, fun t ops h name => isIdentifier_of_mem_operands h,
    fun t h => isIdentifier_take_extent (Rule.extent_pos_of_first? h)⟩
  · exact isIdentifier_of_mem_operands h (List.mem_singleton_self _)
  · obtain ⟨hread, htokens⟩ := readText_jump hw
    rw [Lexer.tokenize_eq_ok_iff, htokens, Token.resolveLabels_eq_ok_iff]
    refine ⟨hread, rfl, ?_⟩
    simp [Token.resolve, Token.labelIndex?_cons_self]
  · obtain ⟨-, hresolve⟩ := Lexer.tokenize_eq_ok_iff.mp h
    obtain ⟨-, rfl⟩ := Token.resolveLabels_eq_ok_iff.mp hresolve
    have hread : (Lexer.readText t).state.AllWellFormed :=
      Lexer.wellFormed_runFrom (fun tok htok => nomatch htok)
    rw [Token.labels_map_resolve] at hname
    obtain ⟨k, n, hk⟩ := Token.mem_labels_iff.mp hname
    exact hread _ (List.mem_of_getElem? hk)

/-- An accent, a joiner, a dot, a numeric character that is no decimal digit, and an emoji. -/
theorem isIdentifier_names_joiner :
    isIdentifier "é\u200d.½🚀".toList ∧
    operands "é\u200d.½🚀".toList = .ok [.label "é\u200d.½🚀".toList] ∧
    tokenize "é\u200d.½🚀: j é\u200d.½🚀".toList = .ok
      [⟨1, .label "é\u200d.½🚀".toList⟩,
        ⟨1, .instruction ['j'] (.machine "j" [.imm, .label])
          { shape := .label, label := some "é\u200d.½🚀".toList, resolved := some 0 }⟩] := by
  have hw : isIdentifier "é\u200d.½🚀".toList := by decide +kernel
  obtain ⟨hiff, hjump, -⟩ := isIdentifier_names
  exact ⟨hw, (hiff _).mp hw, hjump _ hw⟩

end MipsAsm
