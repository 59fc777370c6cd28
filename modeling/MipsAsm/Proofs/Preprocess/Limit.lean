import MipsAsm.Preprocess.Session
import MipsAsm.Proofs.Preprocess.Failure

/-!
# The limit on nesting

The limit only cuts off: a run that does not fail at the limit is the same under any higher one, in
its result, in the macros and symbols that it leaves behind, and in what it reports
(`Session.run_process_of_maxDepth_le`).
-/

namespace MipsAsm

open Run

namespace Expansion

variable {settings : Settings} {inner : Frame → Text → Expansion Text} {frame : Frame}

/-- The blocks of a text do not look at the limit themselves. -/
lemma processBlocks_maxDepth (d : Int) (bs : List (Nat × Block)) :
    processBlocks { settings with maxDepth := d } inner frame bs =
      processBlocks settings inner frame bs := by
  induction bs with
  | nil => rfl
  | cons p bs ih =>
    obtain ⟨line, b⟩ := p
    have hblock : processBlock { settings with maxDepth := d } inner frame line b =
        processBlock settings inner frame line b := by
      cases b <;> rfl
    rw [processBlocks, processBlocks, hblock, ih]

/-- A text that does not run out of levels is processed alike with more levels and another limit. -/
theorem run_processText_of_le {d d' : Int} {levels levels' : Nat} (hle : levels ≤ levels')
    {text : Text} {s : MacroTable}
    (h : ¬ FailsWith (processText { settings with maxDepth := d } levels frame text) s
      (· = .tooDeep d)) :
    (processText { settings with maxDepth := d' } levels' frame text).run s =
      (processText { settings with maxDepth := d } levels frame text).run s := by
  induction levels generalizing levels' frame text s with
  | zero => exact absurd ⟨_, rfl, rfl⟩ h
  | succ levels ih =>
    obtain ⟨levels', rfl⟩ := Nat.exists_eq_add_one.mpr (Nat.zero_lt_of_lt hle)
    refine run_bind_congr ?_ fun _ _ _ => rfl
    rw [processBlocks_maxDepth]
    symm
    rw [processBlocks_maxDepth]
    refine run_processBlocks_congr fun r m w hasks hw => ?_
    -- a text that is asked for and runs out of levels would fail this one in the same way
    refine (ih (Nat.le_of_succ_le_succ hle) fun hfails => h ?_).symm
    refine Fails.bind ?_
    rw [processBlocks_maxDepth]
    exact hasks.fails_of_visit hw hfails

end Expansion

namespace Session

/-- Where a text does not nest deeper than the limit, it is preprocessed alike under any higher
limit: the result is the same, be it a text or a failure in its place, and so are the macros and
symbols in the end. -/
theorem run_process_of_maxDepth_le {d d' : Int} (hle : d ≤ d') (settings : Settings) (text : Text)
    (s : Session)
    (h : ∀ e, ((process { settings with maxDepth := d } text).run s).result = .error e →
      e.fault ≠ .tooDeep d) :
    (process { settings with maxDepth := d' } text).run s =
      (process { settings with maxDepth := d } text).run s := by
  refine run_bind_congr (run_focus_congr ?_) fun _ _ _ => rfl
  have hlevels : (d + 1).toNat ≤ (d' + 1).toNat := Int.toNat_le_toNat (by omega)
  refine Expansion.run_processText_of_le hlevels fun hfails => ?_
  obtain ⟨e, he, hfault⟩ := hfails
  have hexpand : Fails (onMacros (Expansion.expand { settings with maxDepth := d } text)) s
      (·.fault = .tooDeep d) := ⟨e, he, hfault⟩
  obtain ⟨e', he', hfault'⟩ : Fails (process { settings with maxDepth := d } text) s
      (·.fault = .tooDeep d) := hexpand.bind
  exact h e' he' hfault'

/-- Settings under which there is no file. -/
def withoutFiles (maxDepth : Int) : Settings := { files := (FileTree.mk [] []).files, maxDepth }

/-- A directive without its operands, in the expansion of a call in the expansion of a call. -/
def nestedCalls : Text := ".macro f\n.eqv\n.end_macro\n.macro g\nf\n.end_macro\ng".toList

theorem run_process_of_maxDepth_le_nestedCalls :
    (∀ e, ((process (withoutFiles 2) nestedCalls).run {}).result = .error e →
      e.fault ≠ .tooDeep 2) ∧
    ((process (withoutFiles 9) nestedCalls).run {}).result =
      .error ⟨.missingSymbol, .line 1⟩ := by
  have hrun : ((process (withoutFiles 2) nestedCalls).run {}).result =
      .error ⟨.missingSymbol, .line 1⟩ := by
    decide +kernel
  have hfault : ∀ e, ((process (withoutFiles 2) nestedCalls).run {}).result = .error e →
      e.fault ≠ .tooDeep 2 := by
    intro e he
    cases hrun.symm.trans he
    nofun
  have hle : (2 : Int) ≤ 9 := by decide
  have hsame := run_process_of_maxDepth_le hle (withoutFiles 0) nestedCalls {} hfault
  exact ⟨hfault, (congrArg Outcome.result hsame).trans hrun⟩

end Session

end MipsAsm
