import MipsAsm.Preprocess.Symbol
import MipsAsm.Proofs.Scan.Cut
import MipsAsm.Proofs.Scan.Leftmost

/-!
# Directives on a line

The search of a line for a directive reads the line once and carries the state of the scan along.
It tries the positions of the line in order, each by the segment around it
(`findDirective?_eq_findSome?`). So it is a search of the code of the line for a word that spells a
directive, and finds the leftmost of these words, whatever stands in literals and comments or within
longer words: `findDirective?_isLeftmost`.
-/

namespace MipsAsm

/-! ### Spellings -/

/-- The word spells a directive of the preprocessor. -/
def spellsDirective (w : Text) : Bool := preprocessorKeywords.any (Scan.spells · w)

lemma isKeyword_of_mem_preprocessorKeywords {k : Text} (hk : k ∈ preprocessorKeywords) :
    Scan.IsKeyword k := by
  have hall : (preprocessorKeywords.all fun k => !k.isEmpty && Scan.separators.all fun c =>
      k.all fun a => !Scan.isCaseOf a c) = true := by
    decide +kernel
  have hsep := List.all_eq_true.mp hall k hk
  rw [Bool.and_eq_true, Bool.not_eq_true', List.isEmpty_eq_false_iff] at hsep
  refine Scan.isKeyword_of_separators hsep.1 fun c hc a ha => ?_
  have := List.all_eq_true.mp (List.all_eq_true.mp hsep.2 c hc) a ha
  simpa using this

/-- Directives begin with a dot. -/
lemma head?_of_spellsDirective {w : Text} (h : spellsDirective w) : w.head? = some '.' := by
  obtain ⟨k, hk, hspells⟩ := List.any_eq_true.mp h
  obtain ⟨d, -, rfl⟩ := List.mem_map.mp hk
  cases w with
  | nil => cases hspells
  | cons c w =>
    rw [Directive.dotted, Scan.spells, Bool.and_eq_true, Scan.isCaseOf] at hspells
    have hcapital : ∀ n < 91, 65 ≤ n → Char.ofNat (n + 32) ≠ '.' := by decide
    have hc := hspells.1
    simp only [Bool.or_eq_true, Bool.and_eq_true, decide_eq_true_eq] at hc
    rcases hc with (rfl | hc) | hc
    · rfl
    · exact absurd hc.2 (hcapital c.toNat (Nat.lt_succ_of_le hc.1.2) hc.1.1)
    · exact absurd hc.1 (by decide)

lemma findDirective?_eq (line : Text) :
    findDirective? line = Scan.findInCode? spellsDirective line :=
  Scan.findKeyword?_eq (fun _ => isKeyword_of_mem_preprocessorKeywords) line

lemma findDirective?_eq_findFrom? (line : Text) :
    findDirective? line = Scan.findFrom? spellsDirective .code line :=
  findDirective?_eq line

/-! ### Positions -/

namespace Scan

/-- The keyword at a position of a line, if the position is in code, behind a separator or at the
beginning of the line. -/
def keywordSiteAt? (keywords : List Text) (line : Text) (pos : Nat) : Option WordSite :=
  if (line.take pos).getLast?.all isSeparator && contextAt (spans line) pos = .code then
    (keywordAt? keywords (line.drop pos)).map fun (word, rest) => ⟨line.take pos, word, rest⟩
  else none

/-- At the end of what has been read, the state of the search and its flag tell what the segments
and the character in front tell of the position. -/
lemma keywordSiteAt?_length (keywords : List Text) (before : Text) (c : Char) (r : Text) :
    keywordSiteAt? keywords (before ++ c :: r) before.length =
      (if freshAfter true before && (State.code.after before).contextOf c = .code then
        keywordAt? keywords (c :: r) else none).map fun (word, rest) => ⟨before, word, rest⟩ := by
  have hfresh : before.getLast?.all isSeparator = freshAfter true before := by
    rw [Bool.eq_iff_iff, Option.all_eq_true, freshAfter_iff]
    rfl
  rw [keywordSiteAt?, List.take_left, List.drop_left, contextAt_after, hfresh]
  split <;> rfl

lemma searchKeyword_eq_findSome? (keywords : List Text) (before r : Text) :
    (searchKeyword keywords (State.code.after before) (freshAfter true before) r).map
        (·.prepend before) =
      (List.range' before.length r.length).findSome? (keywordSiteAt? keywords (before ++ r)) := by
  induction r generalizing before with
  | nil => rfl
  | cons c r ih =>
    have hlater := ih (before ++ [c])
    rw [State.after_append, freshAfter_append, List.length_append, List.append_assoc] at hlater
    rw [List.length_cons, List.range'_succ, List.findSome?_cons, keywordSiteAt?_length,
      searchKeyword]
    cases if freshAfter true before && (State.code.after before).contextOf c = .code then
      keywordAt? keywords (c :: r) else none with
    | some site => simp [WordSite.prepend]
    | none =>
      rw [Option.map_map, Option.map_none]
      simp only [Function.comp_def, WordSite.prepend_prepend]
      exact hlater

/-- The search tries the positions of a line in order. -/
lemma findKeyword?_eq_findSome? (keywords : List Text) (line : Text) :
    findKeyword? keywords line =
      (List.range line.length).findSome? (keywordSiteAt? keywords line) := by
  rw [List.range_eq_range', findKeyword?]
  simpa [WordSite.prepend, freshAfter] using searchKeyword_eq_findSome? keywords [] line

end Scan

/-- The directive of a line is that of the first position which is in code by the segments of the
line and where a directive stands by itself. -/
theorem findDirective?_eq_findSome? (line : Text) :
    findDirective? line =
      (List.range line.length).findSome? (Scan.keywordSiteAt? preprocessorKeywords line) :=
  Scan.findKeyword?_eq_findSome? preprocessorKeywords line

/-! ### The leftmost directive -/

/-- A line is searched for whole words of its code: there is a directive on it exactly if one of
them spells a directive in some case, and the leftmost of these is the one that is found. The ends
of macros are searched for in the same way. -/
theorem findDirective?_isLeftmost (line : Text) :
    ((findDirective? line).isSome ↔ ∃ site, Scan.IsKeywordSite
      [".include".toList, ".eqv".toList, ".macro".toList, ".end_macro".toList] line site) ∧
    (∀ site, findDirective? line = some site ↔ site.IsLeftmost (Scan.IsKeywordSite
      [".include".toList, ".eqv".toList, ".macro".toList, ".end_macro".toList] line)) ∧
    ((findEndMacro? line).isSome ↔ ∃ site, Scan.IsKeywordSite [".end_macro".toList] line site) ∧
    ∀ site, findEndMacro? line = some site ↔
      site.IsLeftmost (Scan.IsKeywordSite [".end_macro".toList] line) := by
  have hwords : preprocessorKeywords =
      [".include".toList, ".eqv".toList, ".macro".toList, ".end_macro".toList] := by decide
  have hword : [Directive.endMacro.dotted] = [".end_macro".toList] := by decide
  have hkeywords : ∀ k ∈ preprocessorKeywords, Scan.IsKeyword k :=
    fun _ => isKeyword_of_mem_preprocessorKeywords
  have hkeyword : ∀ k ∈ [Directive.endMacro.dotted], Scan.IsKeyword k :=
    List.forall_mem_singleton.mpr (hkeywords _ (List.mem_map_of_mem (by simp)))
  rw [← hwords, ← hword]
  exact ⟨Scan.isSome_findKeyword?_iff hkeywords line,
    fun _ => Scan.findKeyword?_eq_some_iff hkeywords line,
    Scan.isSome_findKeyword?_iff hkeyword line,
    fun _ => Scan.findKeyword?_eq_some_iff hkeyword line⟩

-- a directive in a string and one at the end of a longer word are passed over
example : (findDirective? "\".eqv\"x.eqv .MACRO'".toList).map (·.word) = some ".MACRO".toList := by
  decide +kernel

end MipsAsm
