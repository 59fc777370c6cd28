import MipsAsm.Preprocess.Expansion
import MipsAsm.Proofs.Journal.Run

/-!
# Expansion elsewhere

The same text expands to the same text from a file in the same directory that fewer files led to,
with more levels left, on other lines, and with macros that differ only in the lines of their
definitions: `Expansion.processText_agrees`.
-/

namespace MipsAsm

/-- What a macro is, wherever it was defined. -/
def Macro.definition (m : Macro) : Text × List Text × Text := (m.name, m.parameters, m.body)

/-- The same macros, defined elsewhere. -/
def MacroTable.Same (t t' : MacroTable) : Prop := t.map Macro.definition = t'.map Macro.definition

/-- Files beside each other, the second of which fewer files led to. -/
structure Frame.Widens (f f' : Frame) : Prop where
  parent : f.file.map Path.parent = f'.file.map Path.parent
  active : f'.active ⊆ f.active

namespace MacroTable.Same

variable {t t' : MacroTable}

lemma find? (h : t.Same t') (name : Text) :
    (t.find? name).map Macro.definition = (t'.find? name).map Macro.definition := by
  induction t generalizing t' with
  | nil =>
    cases t' with
    | nil => rfl
    | cons m' t' => cases h
  | cons m t ih =>
    cases t' with
    | nil => cases h
    | cons m' t' =>
      obtain ⟨hm, ht⟩ := List.cons.inj h
      have hname : m.name = m'.name := congrArg Prod.fst hm
      rw [MacroTable.find?, MacroTable.find?, List.find?_cons, List.find?_cons, hname]
      cases decide (m'.name = name) with
      | true => exact congrArg some hm
      | false => exact ih ht

lemma isSome_find? (h : t.Same t') (name : Text) :
    (t.find? name).isSome = (t'.find? name).isSome := by
  have := congrArg Option.isSome (h.find? name)
  rwa [Option.isSome_map, Option.isSome_map] at this

lemma insert (h : t.Same t') {m m' : Macro} (hm : m.definition = m'.definition) :
    (t.insert m).Same (t'.insert m') := by
  have hname : m.name = m'.name := congrArg Prod.fst hm
  have hfilter (t : MacroTable) : (List.filter (·.name ≠ m'.name) t).map Macro.definition =
      (t.map Macro.definition).filter (·.1 ≠ m'.name) := by
    rw [List.filter_map]
    rfl
  have ht : t.map Macro.definition = t'.map Macro.definition := h
  rw [MacroTable.Same, MacroTable.insert, MacroTable.insert, List.map_cons, List.map_cons, hname,
    hfilter, hfilter, ht, hm]

end MacroTable.Same

namespace Expansion

open Run

/-- The second expansion succeeds where the first does, with the same text and the same macros. -/
abbrev Agrees {α : Type} (x y : Expansion α) : Prop := Follows MacroTable.Same Eq x y

variable {settings : Settings} {inner inner' : Text → Expansion Text}

lemma lift_follows {α β : Type} {V : α → β → Prop} {r : Except Fault α} {r' : Except Fault β}
    (h : ∀ a, r = .ok a → ∃ b, r' = .ok b ∧ V a b) :
    Follows MacroTable.Same V (lift r) (lift r') := by
  refine Follows.ofExcept fun a ha => ?_
  obtain ⟨b, hb, hV⟩ := h a (mapError_eq_ok.mp ha)
  exact ⟨b, mapError_eq_ok.mpr hb, hV⟩

lemma lift_agrees {α : Type} (r : Except Fault α) : Agrees (lift r) (lift r) :=
  lift_follows fun a ha => ⟨a, ha, rfl⟩

/-! ### Macro calls -/

lemma callArguments_congr {m m' : Macro} (h : m.definition = m'.definition) (rest : Text) :
    callArguments m rest = callArguments m' rest := by
  have hname : m.name = m'.name := congrArg (·.1) h
  have hparameters : m.parameters = m'.parameters := congrArg (·.2.1) h
  rw [callArguments, callArguments, hname, hparameters]

lemma instantiate_congr {m m' : Macro} (h : m.definition = m'.definition) (arguments : List Text) :
    m.instantiate arguments = m'.instantiate arguments := by
  have hparameters : m.parameters = m'.parameters := congrArg (·.2.1) h
  have hbody : m.body = m'.body := congrArg (·.2.2) h
  simp only [Macro.instantiate, Macro.parts, Macro.argument?, hparameters, hbody]

lemma expandCall_agrees (hinner : ∀ text, Agrees (inner text) (inner' text)) {m m' : Macro}
    (h : m.definition = m'.definition) (rest : Text) :
    Agrees (expandCall inner m rest) (expandCall inner' m' rest) := by
  rw [expandCall, expandCall, callArguments_congr h]
  refine (lift_agrees _).bind_eq fun arguments => ?_
  refine Follows.log_bind ?_ _ _
  rw [instantiate_congr h]
  exact hinner _

lemma expandLine_agrees (hinner : ∀ text, Agrees (inner text) (inner' text)) (line : Text) :
    Agrees (expandLine inner line) (expandLine inner' line) := by
  refine Follows.get.bind fun macros macros' hmacros => ?_
  have hcalled : (fun w => (macros.find? w).isSome) = fun w => (macros'.find? w).isSome :=
    funext hmacros.isSome_find?
  rw [hcalled]
  cases Scan.findInCode? (fun w => (macros'.find? w).isSome) line with
  | none => exact Follows.pure rfl
  | some site =>
    have hfind := hmacros.find? site.word
    dsimp only
    -- tables that are the same find the word in both or in neither
    cases hm : macros.find? site.word with
    | none =>
      rw [hm, Option.map_none, eq_comm, Option.map_eq_none_iff] at hfind
      rw [hfind]
      exact Follows.pure rfl
    | some m =>
      rw [hm, Option.map_some, eq_comm, Option.map_eq_some_iff] at hfind
      obtain ⟨m', hm', hdef⟩ := hfind
      rw [hm']
      refine (expandCall_agrees hinner hdef.symm _).bind_eq fun expansion => ?_
      exact Follows.pure rfl

/-! ### Macro definitions -/

/-- The line of a definition matters to nothing but the line of the macro. -/
lemma readMacro_congr (line line' : Nat) (header : Text) {body : Option MacroBody} {m : Macro}
    {b : MacroBody} (h : readMacro line header body = .ok (m, b)) :
    readMacro line' header body = .ok ({ m with line := line' }, b) := by
  unfold readMacro at h ⊢
  dsimp only at h ⊢
  split_ifs at h ⊢ with hname hparameters
  cases body with
  | none => cases h
  | some body =>
    cases h
    rfl

lemma defineMacro_agrees (hinner : ∀ text, Agrees (inner text) (inner' text)) (line line' : Nat)
    (header : Text) (body : Option MacroBody) :
    Agrees (defineMacro inner line header body) (defineMacro inner' line' header body) := by
  have hread : Follows MacroTable.Same
      (fun p p' : Macro × MacroBody => p.1.definition = p'.1.definition ∧ p.2 = p'.2)
      (lift (readMacro line header body)) (lift (readMacro line' header body)) := by
    refine lift_follows ?_
    rintro ⟨m, b⟩ h
    exact ⟨_, readMacro_congr line line' header h, rfl, rfl⟩
  refine hread.bind ?_
  rintro ⟨m, b⟩ ⟨m', _⟩ ⟨hdef, rfl⟩
  refine (Follows.modify fun t t' h => h.insert hdef).bind_eq fun _ => ?_
  refine Follows.log_bind ?_ _ _
  refine (expandLine_agrees hinner _).bind_eq fun suffix => ?_
  exact Follows.pure rfl

/-! ### Paths -/

lemma candidates_congr {f f' : Option Path} (h : f.map Path.parent = f'.map Path.parent)
    (p : Path) : candidates settings f p = candidates settings f' p := by
  have hbeside : f.map (fun g => g.parent.within p) = f'.map (fun g => g.parent.within p) := by
    simpa [Function.comp_def] using congrArg (Option.map fun d : Path => d.within p) h
  rw [candidates, candidates, hbeside]

lemma locate_congr {f f' : Option Path} (h : f.map Path.parent = f'.map Path.parent) (p : Path) :
    locate settings f p = locate settings f' p := by
  rw [locate, locate, candidates_congr h]

lemma firstExisting?_agrees (files : Files) (ps : List Path) :
    Agrees (firstExisting? files ps) (firstExisting? files ps) := by
  induction ps with
  | nil => exact Follows.pure rfl
  | cons p ps ih =>
    refine Follows.log_bind ?_ _ _
    split
    · exact Follows.pure rfl
    · exact ih

lemma locate_agrees (file : Option Path) (p : Path) :
    Agrees (locate settings file p) (locate settings file p) := by
  rw [locate]
  split
  · exact Follows.pure rfl
  · refine (firstExisting?_agrees _ _).bind_eq fun found => ?_
    exact Follows.pure rfl

lemma readSource_agrees (path : Path) (encoding : Codec) :
    Agrees (settings.files.readSource path encoding) (settings.files.readSource path encoding) := by
  refine Follows.log_bind ?_ _ _
  refine (lift_agrees _).bind_eq fun text => ?_
  refine Follows.log_bind ?_ _ _
  exact Follows.pure rfl

/-! ### Included files -/

section

variable {deep deep' : Frame → Text → Expansion Text} {frame frame' : Frame}

lemma includeFile_agrees
    (hdeep : ∀ f f' text, f.Widens f' → Agrees (deep f text) (deep' f' text))
    (hframe : frame.Widens frame') (rest : Text) :
    Agrees (includeFile settings deep frame rest) (includeFile settings deep' frame' rest) := by
  rw [includeFile]
  refine (lift_agrees _).bind_eq fun ⟨name, suffix⟩ => ?_
  dsimp only
  rw [locate_congr hframe.parent]
  refine (locate_agrees _ _).bind_eq fun path => ?_
  -- a file that is refused in the wider frame is refused in the other one
  by_cases hactive : frame'.active.contains (settings.files.absolute path)
  · have : frame.active.contains (settings.files.absolute path) := by
      rw [List.contains_iff_mem] at hactive ⊢
      exact hframe.active hactive
    rw [if_pos this]
    exact Follows.throw _ _
  · rw [if_neg hactive]
    split
    · exact Follows.throw _ _
    · refine (readSource_agrees _ _).bind_eq fun content => ?_
      have hwidens : Frame.Widens ⟨some path, settings.files.absolute path :: frame.active⟩
          ⟨some path, settings.files.absolute path :: frame'.active⟩ :=
        ⟨rfl, List.cons_subset_cons _ hframe.active⟩
      refine ((hdeep _ _ _ hwidens).mapError _ _).bind_eq fun processed => ?_
      refine Follows.log_bind ?_ _ _
      exact Follows.pure rfl

/-! ### Texts -/

lemma resolve_agrees
    (hdeep : ∀ f f' text, f.Widens f' → Agrees (deep f text) (deep' f' text))
    (hframe : frame.Widens frame') (site : Scan.WordSite) (d : Option Directive) :
    Agrees (resolve settings deep frame site d) (resolve settings deep' frame' site d) := by
  unfold resolve
  split
  · refine (includeFile_agrees hdeep hframe _).bind_eq fun ⟨content, rest⟩ => ?_
    refine (expandLine_agrees (fun text => hdeep _ _ text hframe) _).bind_eq fun suffix => ?_
    exact Follows.pure rfl
  · refine (lift_agrees _).bind_eq fun _ => ?_
    exact Follows.pure rfl
  · exact Follows.throw _ _

lemma processBlock_agrees
    (hdeep : ∀ f f' text, f.Widens f' → Agrees (deep f text) (deep' f' text))
    (hframe : frame.Widens frame') (line line' : Nat) (b : Block) :
    Agrees (processBlock settings deep frame line b)
      (processBlock settings deep' frame' line' b) := by
  have hinner (text : Text) : Agrees (deep frame text) (deep' frame' text) := hdeep _ _ text hframe
  cases b with
  | plain text => exact expandLine_agrees hinner text
  | directive d site =>
    refine (expandLine_agrees hinner _).bind_eq fun before => ?_
    refine Follows.log_bind ?_ _ _
    refine (resolve_agrees hdeep hframe _ _).bind_eq fun replacement => ?_
    exact Follows.pure rfl
  | definition site body =>
    refine (expandLine_agrees hinner _).bind_eq fun before => ?_
    refine Follows.log_bind ?_ _ _
    refine (defineMacro_agrees hinner _ _ _ _).bind_eq fun replacement => ?_
    exact Follows.pure rfl

lemma processBlocks_agrees
    (hdeep : ∀ f f' text, f.Widens f' → Agrees (deep f text) (deep' f' text))
    (hframe : frame.Widens frame') {bs bs' : List (Nat × Block)}
    (hblocks : bs.map Prod.snd = bs'.map Prod.snd) :
    Agrees (processBlocks settings deep frame bs) (processBlocks settings deep' frame' bs') := by
  induction bs generalizing bs' with
  | nil =>
    obtain rfl := List.map_eq_nil_iff.mp hblocks.symm
    exact Follows.pure rfl
  | cons p bs ih =>
    obtain ⟨p', bs', rfl, hb, hbs⟩ := List.map_eq_cons_iff.mp hblocks.symm
    obtain ⟨line, b⟩ := p
    obtain ⟨line', _⟩ := p'
    obtain rfl : _ = b := hb
    refine ((processBlock_agrees hdeep hframe line line' _).mapError _ _).bind_eq fun chunk => ?_
    refine (ih hbs.symm).bind_eq fun chunks => ?_
    exact Follows.pure rfl

end

/-- A text expands to the same text and the same macros elsewhere too, with more levels left. -/
theorem processText_agrees {levels levels' : Nat} (hlevels : levels ≤ levels')
    {frame frame' : Frame} (hframe : frame.Widens frame') (text : Text) :
    Agrees (processText settings levels frame text) (processText settings levels' frame' text) := by
  induction levels generalizing levels' frame frame' text with
  | zero => exact Follows.throw _ _
  | succ levels ih =>
    obtain ⟨levels', rfl⟩ := Nat.exists_eq_add_of_lt (Nat.lt_of_succ_le hlevels)
    have hdeep (f f' : Frame) (text : Text) (h : f.Widens f') :
        Agrees (processText settings levels f text)
          (processText settings (levels + levels') f' text) :=
      ih (Nat.le_add_right _ _) h text
    refine (processBlocks_agrees hdeep hframe rfl).bind_eq fun chunks => ?_
    exact Follows.pure rfl

lemma processBlocks_agrees_of_le {levels levels' : Nat} (hlevels : levels ≤ levels')
    {frame frame' : Frame} (hframe : frame.Widens frame') {bs bs' : List (Nat × Block)}
    (hblocks : bs.map Prod.snd = bs'.map Prod.snd) :
    Agrees (processBlocks settings (processText settings levels) frame bs)
      (processBlocks settings (processText settings levels') frame' bs') :=
  processBlocks_agrees (fun _ _ text h => processText_agrees hlevels h text) hframe hblocks

end Expansion

end MipsAsm
