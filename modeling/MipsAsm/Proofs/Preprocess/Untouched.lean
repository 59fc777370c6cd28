import MipsAsm.Proofs.Preprocess.Calls
import MipsAsm.Proofs.Preprocess.Settled

/-!
# Texts with nothing to expand

A text without directives of the preprocessor, in which no macro is called, is preprocessed to
itself, and nothing is remembered (`Preprocessor.process_untouched`).
-/

namespace MipsAsm

open Run Expansion

/-- No line of the text has a directive, or a call of one of the macros. -/
structure Untouched (macros : MacroTable) (text : Text) : Prop where
  directive : ∀ line ∈ text.lines, findDirective? line = none
  call      : ∀ line ∈ text.lines,
    Scan.findInCode? (fun w => (macros.find? w).isSome) line = none

namespace Expansion

variable {settings : Settings} {inner : Frame → Text → Expansion Text} {frame : Frame}
  {s : MacroTable} {text : Text} {ls : List Text}

lemma yields_expandLine_of_none {deep : Text → Expansion Text} {line : Text}
    (h : Scan.findInCode? (fun w => (s.find? w).isSome) line = none) :
    Yields (expandLine deep line) s line s :=
  (yields_congr (run_expandLine_of_none h)).mpr (yields_pure.mpr ⟨rfl, rfl⟩)

lemma yields_processBlocks_of_none (hdirective : ∀ l ∈ ls, findDirective? l = none)
    (hcall : ∀ l ∈ ls, Scan.findInCode? (fun w => (s.find? w).isSome) l = none) (number : Nat) :
    Yields (processBlocks settings inner frame (Block.ofLinesFrom number 0 ls)) s ls s := by
  induction ls generalizing number with
  | nil => exact yields_processBlocks_nil.mpr ⟨rfl, rfl⟩
  | cons l ls ih =>
    rw [List.forall_mem_cons] at hdirective hcall
    have hblock : Block.ofLine l ls = .plain l := by rw [Block.ofLine, hdirective.1]
    rw [Block.ofLinesFrom, hblock]
    refine yields_processBlocks_cons.mpr ⟨l, s, ls, ?_, ih hdirective.2 hcall.2 _, rfl⟩
    exact yields_expandLine_of_none hcall.1

lemma yields_processText_of_untouched (h : Untouched s text) (levels : Nat) (frame : Frame) :
    Yields (processText settings (levels + 1) frame text) s text s := by
  simp only [processText, yields_bind, yields_pure]
  exact ⟨text.lines, s, yields_processBlocks_of_none h.directive h.call 1,
    Text.joinLines_lines text, rfl⟩

lemma exists_levels_eq (hdepth : 0 ≤ settings.maxDepth) : ∃ levels, settings.levels = levels + 1 :=
  Nat.exists_eq_add_one.mpr (by rw [Settings.levels]; omega)

lemma levels_eq_zero (hdepth : settings.maxDepth < 0) : settings.levels = 0 := by
  rw [Settings.levels]
  omega

lemma yields_expand_of_untouched (hdepth : 0 ≤ settings.maxDepth) (h : Untouched s text) :
    Yields (expand settings text) s text s := by
  obtain ⟨levels, hlevels⟩ := exists_levels_eq hdepth
  rw [expand, hlevels]
  exact yields_processText_of_untouched h levels _

end Expansion

namespace UnitLine

lemma yields_readAll_of_none {σ : Type} {s : σ} {ls : List Text}
    (h : ∀ l ∈ ls, findDirective? l = none) (above : SymbolTable) :
    Yields (readAll above ls) s (ls.map .text) s := by
  induction ls with
  | nil => exact yields_pure.mpr ⟨rfl, rfl⟩
  | cons l ls ih =>
    rw [List.forall_mem_cons] at h
    have hnone : definitionSite? l = none := by rw [definitionSite?, h.1]; rfl
    simp only [readAll, hnone, yields_bind, yields_pure]
    exact ⟨ls.map .text, s, ih h.2, rfl, rfl⟩

end UnitLine

/-- Without definitions a unit stays as it is. -/
lemma yields_replaceSymbols_of_none {σ : Type} {s : σ} {text : Text}
    (h : ∀ line ∈ text.lines, findDirective? line = none) :
    Yields (replaceSymbols text) s (text, none) s := by
  have htexts (ls : List Text) : (ls.map UnitLine.text).any UnitLine.isDefinition = false := by
    simp [UnitLine.isDefinition]
  rw [replaceSymbols, yields_bind]
  refine ⟨text.lines.map .text, s, UnitLine.yields_readAll_of_none h [], ?_⟩
  rw [htexts]
  exact yields_pure.mpr ⟨rfl, rfl⟩

namespace Session

variable {settings : Settings} {text : Text} {s : Session}

lemma yields_replace_of_none (h : ∀ line ∈ text.lines, findDirective? line = none) :
    Yields (replace text) s text s := by
  rw [replace, yields_bind]
  exact ⟨(text, none), s, yields_replaceSymbols_of_none h, yields_pure.mpr ⟨rfl, rfl⟩⟩

/-- A text with nothing to expand stays as it is, and so does the session. -/
lemma yields_process_of_untouched (hdepth : 0 ≤ settings.maxDepth) (h : Untouched s.macros text) :
    Yields (process settings text) s text s := by
  rw [process_eq, yields_bind]
  refine ⟨text, s, ?_, yields_replace_of_none h.directive⟩
  exact yields_focus.mpr ⟨s.macros, yields_expand_of_untouched hdepth h, rfl⟩

/-- Where not even the text itself is allowed, every text is refused. -/
lemma run_process_of_neg (hdepth : settings.maxDepth < 0) (text : Text) (s : Session) :
    (process settings text).run s =
      ⟨.error { fault := .tooDeep settings.maxDepth }, s, []⟩ := by
  have hexpand : (onMacros (Expansion.expand settings text)).run s =
      ⟨.error { fault := .tooDeep settings.maxDepth }, s, []⟩ := by
    rw [expand, levels_eq_zero hdepth]
    rfl
  rw [process_eq, run_bind_of_error hexpand]

end Session

namespace Preprocessor

variable {settings : Settings} {text : Text} {p p' : Preprocessor}

lemma yields_framed {α : Type} {x : List (List Text) → Expansion α} {a : α} :
    Yields (framed x) p a p' ↔
      ∃ macros, Yields (x p.stack) p.macros a macros ∧ { p with macros } = p' := by
  have hrun : (framed x).run p =
      (let o := (x p.stack).run p.macros
       (⟨o.result, { p with macros := o.state }, o.events⟩ : Outcome _ _ _)) := rfl
  rw [Yields, hrun]
  simp [Yields, and_assoc]

lemma yields_clearing {α : Type} {x : Step α} {a : α} (h : Yields x p a p') :
    Yields (clearing x) p a { p' with stack := [] } := by
  obtain ⟨hresult, hstate⟩ := h
  exact ⟨hresult, congrArg (fun p => { p with stack := [] }) hstate⟩

/-- A text with nothing to expand stays as it is, whatever the stack is. -/
lemma yields_processSource_of_untouched (hdepth : 0 ≤ settings.maxDepth)
    (h : Untouched p.macros text) :
    Yields (processSource settings text) p text
      { p with stack := sourcePlaces settings ++ p.stack } := by
  obtain ⟨levels, hlevels⟩ := exists_levels_eq hdepth
  rw [processSource, yields_bind]
  refine ⟨(), { p with stack := sourcePlaces settings ++ p.stack }, yields_modify.mpr rfl, ?_⟩
  rw [yields_bind]
  refine ⟨text, { p with stack := sourcePlaces settings ++ p.stack }, ?_, ?_⟩
  · rw [processText_eq, yields_framed, hlevels]
    exact ⟨p.macros, yields_processText_of_untouched h levels _, rfl⟩
  · rw [applySymbols_eq, yields_focus]
    exact ⟨p.toSession, Session.yields_replace_of_none h.directive, rfl⟩

lemma run_processSource_of_neg (hdepth : settings.maxDepth < 0) (text : Text)
    (p : Preprocessor) :
    (processSource settings text).run p =
      ⟨.error { fault := .tooDeep settings.maxDepth },
        { p with stack := sourcePlaces settings ++ p.stack }, []⟩ := by
  have hpush : (Run.modify fun p => { p with stack := sourcePlaces settings ++ p.stack } :
      Step Unit).run p = ⟨.ok (), { p with stack := sourcePlaces settings ++ p.stack }, []⟩ := rfl
  have hunit : (processText settings settings.levels settings.source text).run
      { p with stack := sourcePlaces settings ++ p.stack } =
        ⟨.error { fault := .tooDeep settings.maxDepth },
          { p with stack := sourcePlaces settings ++ p.stack }, []⟩ := by
    rw [levels_eq_zero hdepth]
    rfl
  rw [processSource, run_bind_of_ok hpush, run_bind_of_error hunit]
  rfl

/-- A text without directives, in whose code no word is the name of a macro, is preprocessed to
itself, whatever the preprocessor remembers, and it remembers the same afterwards. Where not even
the text itself is allowed it is refused. So what preprocessing makes of a text is preprocessed to
itself, if it has no directives. -/
theorem process_untouched (settings : Settings) :
    (∀ (p : Preprocessor) (text : Text),
      (∀ line ∈ text.lines, findDirective? line = none) →
      (∀ line ∈ text.lines, ∀ w ∈ Scan.codeWords line, p.macros.find? w = none) →
      let o := (process settings text).run p
      o.state.macros = p.macros ∧ o.state.symbols = p.symbols ∧
      (0 ≤ settings.maxDepth → o.result = .ok text) ∧
      (settings.maxDepth < 0 → o.result = .error { fault := .tooDeep settings.maxDepth })) ∧
    (∀ t u, preprocess settings t = .ok u → (∀ line ∈ u.lines, findDirective? line = none) →
      preprocess settings u = .ok u) := by
  constructor
  · intro p text hdirective hname
    dsimp only
    by_cases hdepth : 0 ≤ settings.maxDepth
    · have huntouched : Untouched p.macros text := by
        refine ⟨hdirective, fun line hline => Scan.findInCode?_eq_none_iff.mpr fun w hw => ?_⟩
        simp [hname line hline w hw]
      obtain ⟨hresult, hstate⟩ :=
        yields_clearing (yields_processSource_of_untouched hdepth huntouched)
      rw [process, hstate]
      exact ⟨rfl, rfl, fun _ => hresult, fun hneg => absurd hdepth (Int.not_le.mpr hneg)⟩
    · rw [Int.not_le] at hdepth
      rw [process, run_clearing (run_processSource_of_neg hdepth text p)]
      exact ⟨rfl, rfl, fun hpos => absurd hpos (Int.not_le.mpr hdepth), fun _ => rfl⟩
  · intro t u h hdirective
    -- `t` would have been refused otherwise
    have hdepth : 0 ≤ settings.maxDepth := by
      by_contra hneg
      rw [preprocess, Session.run_process_of_neg (Int.not_le.mp hneg)] at h
      cases h
    have huntouched : Untouched [] u := by
      refine ⟨hdirective, fun line _ => Scan.findInCode?_eq_none_iff.mpr fun w _ => ?_⟩
      simp [MacroTable.find?]
    exact (Session.yields_process_of_untouched (s := {}) hdepth huntouched).1

/-- A preprocessor that remembers a macro and a symbol. -/
def remembering : Preprocessor :=
  { macros := [⟨['m'], [], "nop".toList, 1⟩], symbols := [("n".toList, "1".toList)] }

/-- A directive and the name of a macro in a literal and in a comment, and what is left of a
definition and a call. -/
theorem process_untouched_literal :
    (let o := (process (Session.withoutFiles 0) "li n, \"m .eqv\" # m\n".toList).run remembering
     o.result = .ok "li n, \"m .eqv\" # m\n".toList ∧ o.state.macros = remembering.macros ∧
      o.state.symbols = remembering.symbols) ∧
    preprocess (Session.withoutFiles 1) ".macro m\nnop\n.end_macro\nm".toList =
      .ok "\n\n\nnop".toList ∧
    preprocess (Session.withoutFiles 1) "\n\n\nnop".toList = .ok "\n\n\nnop".toList := by
  have hfirst : preprocess (Session.withoutFiles 1) ".macro m\nnop\n.end_macro\nm".toList =
      .ok "\n\n\nnop".toList := by
    decide +kernel
  obtain ⟨hmacros, hsymbols, hresult, -⟩ := (process_untouched (Session.withoutFiles 0)).1
    remembering "li n, \"m .eqv\" # m\n".toList (by decide +kernel) (by decide +kernel)
  exact ⟨⟨hresult (by decide), hmacros, hsymbols⟩, hfirst,
    (process_untouched (Session.withoutFiles 1)).2 _ _ hfirst (by decide +kernel)⟩

/-- A word alone, where not even the text itself is allowed. -/
theorem process_untouched_refused :
    (∀ line ∈ Text.lines "nop".toList, findDirective? line = none) ∧
    (∀ line ∈ Text.lines "nop".toList, ∀ w ∈ Scan.codeWords line,
      ({} : Preprocessor).macros.find? w = none) ∧
    ((process (Session.withoutFiles (-1)) "nop".toList).run {}).result ≠ .ok "nop".toList := by
  refine ⟨?_, ?_, ?_⟩ <;> decide +kernel

end Preprocessor

end MipsAsm
