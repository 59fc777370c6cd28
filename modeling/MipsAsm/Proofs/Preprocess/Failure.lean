import MipsAsm.Proofs.Preprocess.Request

/-!
# Where a text fails

The processing of a text fails where a block of it is refused, or as a text that one of its blocks
asks for: `Expansion.fails_processBlocks` and `Expansion.fails_processBlock`.
-/

namespace MipsAsm

lemma Diagnostic.fault_atLine (d : Diagnostic) (n : Nat) : (d.atLine n).fault = d.fault := by
  unfold Diagnostic.atLine
  split <;> rfl

namespace Expansion

open Run

/-- The expansion fails from macros, with a fault of a kind. -/
abbrev FailsWith {α : Type} (x : Expansion α) (s : MacroTable) (p : Fault → Prop) : Prop :=
  Fails x s fun d => p d.fault

/-- The first macro call in a line cannot be read. -/
def LineRefuses (macros : MacroTable) (line : Text) (f : Fault) : Prop :=
  ∃ site m, Scan.findInCode? (fun w => (macros.find? w).isSome) line = some site ∧
    macros.find? site.word = some m ∧ callArguments m site.after = .error f

/-- What follows an `.include` leads to no text: it names no file, one that led to the frame, or one
that cannot be read. -/
inductive FileRefused (settings : Settings) (frame : Frame) (s : MacroTable) (rest : Text) :
    Fault → Prop where
  | unnamed {f : Fault} (h : readIncludeName rest = .error f) : FileRefused settings frame s rest f
  | cyclic {name suffix : Text} {path : Path} (hread : readIncludeName rest = .ok (name, suffix))
      (hlocate : Yields (locate settings frame.file (Path.ofText name)) s path s)
      (hactive : frame.active.contains (settings.files.absolute path)) :
      FileRefused settings frame s rest (.selfInclusion name)
  | unreadable {path : Path} {f : Fault} (h : NamesFile settings frame.file s rest path)
      (hactive : ¬ frame.active.contains (settings.files.absolute path))
      (hsource : settings.files.source path settings.encoding = .error f) :
      FileRefused settings frame s rest f

section

variable (settings : Settings) (inner : Frame → Text → Expansion Text) (frame : Frame)

/-- While a block is processed from macros, a part of it is refused. -/
inductive BlockRefuses (line : Nat) (s : MacroTable) : Block → Fault → Prop where
  | plain {text : Text} {f : Fault} (h : LineRefuses s text f) :
      BlockRefuses line s (.plain text) f
  | before {d : Option Directive} {site : Scan.WordSite} {f : Fault}
      (h : LineRefuses s site.before f) : BlockRefuses line s (.directive d site) f
  | file {site : Scan.WordSite} {before : Text} {s₁ : MacroTable} {f : Fault}
      (hbefore : Yields (expandLine (inner frame) site.before) s before s₁)
      (h : FileRefused settings frame s₁ site.after f) :
      BlockRefuses line s (.directive (some .includeFile) site) f
  | afterFile {site : Scan.WordSite} {before rest content : Text} {s₁ s₂ : MacroTable} {f : Fault}
      (hbefore : Yields (expandLine (inner frame) site.before) s before s₁)
      (hfile : Yields (includeFile settings inner frame site.after) s₁ (content, rest) s₂)
      (h : LineRefuses s₂ rest f) : BlockRefuses line s (.directive (some .includeFile) site) f
  | symbol {site : Scan.WordSite} {before : Text} {s₁ : MacroTable} {f : Fault}
      (hbefore : Yields (expandLine (inner frame) site.before) s before s₁)
      (h : readDefinition site.after = .error f) :
      BlockRefuses line s (.directive (some .eqv) site) f
  | stray {d : Option Directive} {site : Scan.WordSite} {before : Text} {s₁ : MacroTable}
      (hbefore : Yields (expandLine (inner frame) site.before) s before s₁)
      (hfile : d ≠ some .includeFile) (hsymbol : d ≠ some .eqv) :
      BlockRefuses line s (.directive d site) .strayEndMacro
  | beforeDefinition {site : Scan.WordSite} {body : Option MacroBody} {f : Fault}
      (h : LineRefuses s site.before f) : BlockRefuses line s (.definition site body) f
  | definition {site : Scan.WordSite} {body : Option MacroBody} {before : Text} {s₁ : MacroTable}
      {f : Fault} (hbefore : Yields (expandLine (inner frame) site.before) s before s₁)
      (h : readMacro line site.after body = .error f) :
      BlockRefuses line s (.definition site body) f
  | afterDefinition {site : Scan.WordSite} {body : Option MacroBody} {m : Macro} {b : MacroBody}
      {before : Text} {s₁ : MacroTable} {f : Fault}
      (hbefore : Yields (expandLine (inner frame) site.before) s before s₁)
      (hread : readMacro line site.after body = .ok (m, b))
      (h : LineRefuses (s₁.insert m) b.stop.after f) :
      BlockRefuses line s (.definition site body) f

/-- While blocks are processed in order from macros, there comes the block on a line with other
macros known. -/
inductive Arrives : MacroTable → List (Nat × Block) → Nat → Block → MacroTable → Prop where
  | here {s : MacroTable} {line : Nat} {b : Block} {bs : List (Nat × Block)} :
      Arrives s ((line, b) :: bs) line b s
  | later {s s₁ s' : MacroTable} {line line' : Nat} {b b' : Block} {bs : List (Nat × Block)}
      {chunk : Text} (hb : Yields (processBlock settings inner frame line b) s chunk s₁)
      (h : Arrives s₁ bs line' b' s') : Arrives s ((line, b) :: bs) line' b' s'

end

/-- A diagnostic as seen by the text that asks for the text in which it was found. -/
def Request.seen : Request → Diagnostic → Diagnostic
  | .call _,    d => d
  | .file path, d => d.within path.fileName

/-- A part of a block is refused, or a text that the block asks for fails. -/
def BlockFails (settings : Settings) (inner : Frame → Text → Expansion Text) (frame : Frame)
    (line : Nat) (s : MacroTable) (b : Block) (p : Diagnostic → Prop) : Prop :=
  (∃ f, BlockRefuses settings inner frame line s b f ∧ p { fault := f }) ∨
  ∃ r m w, BlockAsks settings inner frame line s b r m ∧ r.visit? settings frame m = some w ∧
    Fails (inner w.frame w.text) w.macros fun d => p (r.seen d)

variable {settings : Settings} {frame : Frame} {s s' : MacroTable} {line : Nat} {b : Block}
  {bs : List (Nat × Block)} {r : Request} {rest : Text} {p : Diagnostic → Prop}

/-! ### Lines and files -/

lemma fails_lift {α : Type} {x : Except Fault α} :
    Fails (lift x : Expansion α) s p ↔ ∃ f, x = .error f ∧ p { fault := f } := by
  rw [lift, fails_ofExcept]
  simp only [mapError_eq_error]
  constructor
  · rintro ⟨_, ⟨f, hf, rfl⟩, hp⟩
    exact ⟨f, hf, hp⟩
  · rintro ⟨f, hf, hp⟩
    exact ⟨_, ⟨f, hf, rfl⟩, hp⟩

lemma fails_readSource {path : Path} :
    Fails (settings.files.readSource path settings.encoding : Expansion Text) s p ↔
      ∃ f, settings.files.source path settings.encoding = .error f ∧ p { fault := f } := by
  rw [Files.readSource, fails_log_bind, fails_bind, ← fails_lift, lift]
  refine or_iff_left ?_
  rintro ⟨text, s₁, -, h⟩
  exact not_fails_pure (fails_log_bind.mp h)

lemma not_fails_locate {file : Option Path} {q : Path} : ¬ Fails (locate settings file q) s p := by
  have hfirst (ps : List Path) : ¬ Fails (firstExisting? settings.files ps) s p := by
    induction ps with
    | nil => exact not_fails_pure
    | cons q ps ih =>
      rw [firstExisting?, fails_log_bind]
      split
      · exact not_fails_pure
      · exact ih
  rw [locate]
  split
  · exact not_fails_pure
  · rw [fails_bind_pure]
    exact hfirst _

section

variable {inner : Text → Expansion Text} {l : Text}

lemma fails_expandCall {m : Macro} :
    Fails (expandCall inner m rest) s p ↔
      (∃ f, callArguments m rest = .error f ∧ p { fault := f }) ∨
      ∃ arguments, callArguments m rest = .ok arguments ∧
        Fails (inner (m.instantiate arguments)) s p := by
  rw [expandCall, fails_bind, fails_lift]
  simp [yields_lift, fails_log_bind]

/-- A line fails if its call cannot be read, or as the text that it expands to. -/
lemma fails_expandLine :
    Fails (expandLine inner l) s p ↔
      (∃ f, LineRefuses s l f ∧ p { fault := f }) ∨
      ∃ t, LineCalls s l t ∧ Fails (inner t) s p := by
  cases hsite : Scan.findInCode? (fun w => (s.find? w).isSome) l with
  | none =>
    rw [fails_congr (run_expandLine_of_none hsite)]
    simp [LineRefuses, LineCalls, hsite]
  | some site =>
    cases hm : s.find? site.word with
    | none =>
      have hpure : (expandLine inner l).run s = (pure l : Expansion Text).run s := by
        rw [run_expandLine, hsite]
        dsimp only
        rw [hm]
      rw [fails_congr hpure]
      simp [LineRefuses, LineCalls, hsite, hm]
    | some m =>
      rw [fails_congr (run_expandLine_of_some hsite hm), fails_bind_pure, fails_expandCall]
      simp [LineRefuses, LineCalls, hsite, hm]

end

variable {inner : Frame → Text → Expansion Text}

/-- An inclusion fails if it leads to no text, or as the text that it leads to. -/
lemma fails_includeFile :
    Fails (includeFile settings inner frame rest) s p ↔
      (∃ f, FileRefused settings frame s rest f ∧ p { fault := f }) ∨
      ∃ path w, NamesFile settings frame.file s rest path ∧
        (Request.file path).visit? settings frame s = some w ∧
        Fails (inner w.frame w.text) w.macros fun d => p (d.within path.fileName) := by
  rw [includeFile, fails_bind, fails_lift]
  constructor
  · rintro (⟨f, hread, hp⟩ | ⟨⟨name, suffix⟩, s₁, hlift, h⟩)
    · exact .inl ⟨f, .unnamed hread, hp⟩
    obtain ⟨hread, rfl⟩ := yields_lift.mp hlift
    -- from here on the name is known, and to look for its file does not fail
    obtain ⟨path, s₁, hlocate, h⟩ := (fails_bind.mp h).resolve_left not_fails_locate
    obtain rfl := state_of_yields_locate hlocate
    dsimp only at h
    split at h
    · next hactive => exact .inl ⟨_, .cyclic hread hlocate hactive, fails_throw.mp h⟩
    next hactive =>
    rcases fails_bind.mp h with h | ⟨content, s₁, hsource, h⟩
    · obtain ⟨f, hf, hp⟩ := fails_readSource.mp h
      exact .inl ⟨f, .unreadable ⟨name, suffix, hread, hlocate⟩ hactive hf, hp⟩
    · obtain ⟨hcontent, rfl⟩ := yields_readSource.mp hsource
      refine .inr ⟨path, _, ⟨name, suffix, hread, hlocate⟩,
        Request.visit?_file.mpr ⟨hactive, content, hcontent, rfl⟩, ?_⟩
      rcases fails_bind.mp h with h | ⟨processed, s₁, -, h⟩
      · exact fails_mapError.mp h
      · exact absurd (fails_log_bind.mp h) not_fails_pure
  · rintro (⟨f, hrefused, hp⟩ | ⟨path, w, ⟨name, suffix, hread, hlocate⟩, hw, h⟩)
    · cases hrefused with
      | unnamed hread => exact .inl ⟨f, hread, hp⟩
      | cyclic hread hlocate hactive =>
        refine .inr ⟨_, s, yields_lift.mpr ⟨hread, rfl⟩, hlocate.fails_bind ?_⟩
        dsimp only
        rw [if_pos hactive]
        exact fails_throw.mpr hp
      | unreadable hnames hactive hsource =>
        obtain ⟨name, suffix, hread, hlocate⟩ := hnames
        refine .inr ⟨_, s, yields_lift.mpr ⟨hread, rfl⟩, hlocate.fails_bind ?_⟩
        dsimp only
        rw [if_neg hactive]
        exact (fails_readSource.mpr ⟨f, hsource, hp⟩).bind
    · obtain ⟨hactive, content, hcontent, rfl⟩ := Request.visit?_file.mp hw
      refine .inr ⟨_, s, yields_lift.mpr ⟨hread, rfl⟩, hlocate.fails_bind ?_⟩
      dsimp only
      rw [if_neg hactive]
      exact (yields_readSource.mpr ⟨hcontent, rfl⟩).fails_bind (fails_mapError.mpr h).bind

/-! ### Single blocks -/

section

variable {site : Scan.WordSite}

lemma fails_includeDirective :
    Fails (resolve settings inner frame site (some .includeFile)) s p ↔
      Fails (includeFile settings inner frame site.after) s p ∨
      ∃ content rest s₁, Yields (includeFile settings inner frame site.after) s (content, rest) s₁ ∧
        Fails (expandLine (inner frame) rest) s₁ p := by
  rw [resolve, fails_bind]
  simp only [fails_bind_pure, Prod.exists]

lemma fails_eqvDirective :
    Fails (resolve settings inner frame site (some .eqv)) s p ↔
      ∃ f, readDefinition site.after = .error f ∧ p { fault := f } := by
  rw [resolve, fails_bind_pure, fails_lift]

lemma fails_strayDirective {d : Option Directive} (hfile : d ≠ some .includeFile)
    (hsymbol : d ≠ some .eqv) :
    Fails (resolve settings inner frame site d) s p ↔ p { fault := .strayEndMacro } := by
  unfold resolve
  split
  · exact absurd rfl hfile
  · exact absurd rfl hsymbol
  · exact fails_throw

lemma fails_defineMacro {inner : Text → Expansion Text} {header : Text} {body : Option MacroBody} :
    Fails (defineMacro inner line header body) s p ↔
      (∃ f, readMacro line header body = .error f ∧ p { fault := f }) ∨
      ∃ m b, readMacro line header body = .ok (m, b) ∧
        Fails (expandLine inner b.stop.after) (s.insert m) p := by
  rw [defineMacro, fails_bind, fails_lift]
  refine or_congr_right ?_
  constructor
  · rintro ⟨⟨m, b⟩, s₁, hlift, h⟩
    obtain ⟨hread, rfl⟩ := yields_lift.mp hlift
    obtain ⟨_, s₁, hinsert, h⟩ := (fails_bind.mp h).resolve_left not_fails_modify
    obtain rfl := yields_modify.mp hinsert
    exact ⟨m, b, hread, fails_bind_pure.mp (fails_log_bind.mp h)⟩
  · rintro ⟨m, b, hread, h⟩
    refine ⟨(m, b), s, yields_lift.mpr ⟨hread, rfl⟩, ?_⟩
    have hinsert : Yields (Run.modify (·.insert m) : Expansion Unit) s () (s.insert m) :=
      yields_modify.mpr rfl
    exact hinsert.fails_bind (fails_log_bind.mpr (fails_bind_pure.mpr h))

lemma fails_processBlock_directive {d : Option Directive} :
    Fails (processBlock settings inner frame line (.directive d site)) s p ↔
      Fails (expandLine (inner frame) site.before) s p ∨
      ∃ before s₁, Yields (expandLine (inner frame) site.before) s before s₁ ∧
        Fails (resolve settings inner frame site d) s₁ p := by
  rw [processBlock, fails_bind]
  simp only [fails_log_bind, fails_bind_pure]

lemma fails_processBlock_definition {body : Option MacroBody} :
    Fails (processBlock settings inner frame line (.definition site body)) s p ↔
      Fails (expandLine (inner frame) site.before) s p ∨
      ∃ before s₁, Yields (expandLine (inner frame) site.before) s before s₁ ∧
        Fails (defineMacro (inner frame) line site.after body) s₁ p := by
  rw [processBlock, fails_bind]
  simp only [fails_log_bind, fails_bind_pure]

end

lemma BlockRefuses.fails {f : Fault} (h : BlockRefuses settings inner frame line s b f)
    (hp : p { fault := f }) : Fails (processBlock settings inner frame line b) s p := by
  have hline {l : Text} {s : MacroTable} (h : LineRefuses s l f) :
      Fails (expandLine (inner frame) l) s p := fails_expandLine.mpr (.inl ⟨f, h, hp⟩)
  cases h with
  | plain h => exact hline h
  | before h => exact fails_processBlock_directive.mpr (.inl (hline h))
  | file hbefore h =>
    have hfile : Fails (includeFile settings inner frame _) _ p :=
      fails_includeFile.mpr (.inl ⟨f, h, hp⟩)
    exact fails_processBlock_directive.mpr
      (.inr ⟨_, _, hbefore, fails_includeDirective.mpr (.inl hfile)⟩)
  | afterFile hbefore hfile h =>
    exact fails_processBlock_directive.mpr
      (.inr ⟨_, _, hbefore, fails_includeDirective.mpr (.inr ⟨_, _, _, hfile, hline h⟩)⟩)
  | symbol hbefore h =>
    exact fails_processBlock_directive.mpr
      (.inr ⟨_, _, hbefore, fails_eqvDirective.mpr ⟨f, h, hp⟩⟩)
  | stray hbefore hfile hsymbol =>
    exact fails_processBlock_directive.mpr
      (.inr ⟨_, _, hbefore, (fails_strayDirective hfile hsymbol).mpr hp⟩)
  | beforeDefinition h => exact fails_processBlock_definition.mpr (.inl (hline h))
  | definition hbefore h =>
    exact fails_processBlock_definition.mpr
      (.inr ⟨_, _, hbefore, fails_defineMacro.mpr (.inl ⟨f, h, hp⟩)⟩)
  | afterDefinition hbefore hread h =>
    exact fails_processBlock_definition.mpr
      (.inr ⟨_, _, hbefore, fails_defineMacro.mpr (.inr ⟨_, _, hread, hline h⟩)⟩)

lemma BlockAsks.fails {m : MacroTable} {w : Visit} (h : BlockAsks settings inner frame line s b r m)
    (hw : r.visit? settings frame m = some w)
    (hfails : Fails (inner w.frame w.text) w.macros fun d => p (r.seen d)) :
    Fails (processBlock settings inner frame line b) s p := by
  have hline {l t : Text} {s : MacroTable} (hasks : LineCalls s l t)
      (hw : (Request.call t).visit? settings frame s = some w)
      (hfails : Fails (inner w.frame w.text) w.macros p) :
      Fails (expandLine (inner frame) l) s p := by
    cases hw
    exact fails_expandLine.mpr (.inr ⟨t, hasks, hfails⟩)
  cases h with
  | plain h => exact hline h hw hfails
  | before h => exact fails_processBlock_directive.mpr (.inl (hline h hw hfails))
  | file hbefore h =>
    have hfile := fails_includeFile.mpr (.inr ⟨_, w, h, hw, hfails⟩)
    exact fails_processBlock_directive.mpr
      (.inr ⟨_, _, hbefore, fails_includeDirective.mpr (.inl hfile)⟩)
  | afterFile hbefore hfile h =>
    exact fails_processBlock_directive.mpr (.inr ⟨_, _, hbefore,
      fails_includeDirective.mpr (.inr ⟨_, _, _, hfile, hline h hw hfails⟩)⟩)
  | beforeDefinition h => exact fails_processBlock_definition.mpr (.inl (hline h hw hfails))
  | afterDefinition hbefore hread h =>
    exact fails_processBlock_definition.mpr (.inr ⟨_, _, hbefore,
      fails_defineMacro.mpr (.inr ⟨_, _, hread, hline h hw hfails⟩)⟩)

/-- A block fails where a piece of it fails that is searched for a call. -/
lemma blockFails_of_line {l : Text} {s₁ : MacroTable}
    (hrefuses : ∀ f, LineRefuses s₁ l f → BlockRefuses settings inner frame line s b f)
    (hasks : ∀ t, LineCalls s₁ l t → BlockAsks settings inner frame line s b (.call t) s₁)
    (h : Fails (expandLine (inner frame) l) s₁ p) : BlockFails settings inner frame line s b p := by
  rcases fails_expandLine.mp h with ⟨f, hf, hp⟩ | ⟨t, ht, h⟩
  · exact .inl ⟨f, hrefuses f hf, hp⟩
  · exact .inr ⟨.call t, s₁, _, hasks t ht, rfl, h⟩

/-- A block fails if a part of it is refused, or as a text that it asks for. -/
theorem fails_processBlock :
    Fails (processBlock settings inner frame line b) s p ↔
      BlockFails settings inner frame line s b p := by
  constructor
  · intro h
    cases b with
    | plain text => exact blockFails_of_line (fun _ => .plain) (fun _ => .plain) h
    | directive d site =>
      rcases fails_processBlock_directive.mp h with h | ⟨before, s₁, hbefore, h⟩
      · exact blockFails_of_line (fun _ => .before) (fun _ => .before) h
      by_cases hfile : d = some .includeFile
      · subst hfile
        -- the file itself, or what stands behind its name
        rcases fails_includeDirective.mp h with h | ⟨content, rest, s₂, hcontent, h⟩
        · rcases fails_includeFile.mp h with ⟨f, hf, hp⟩ | ⟨path, w, hpath, hw, h⟩
          · exact .inl ⟨f, .file hbefore hf, hp⟩
          · exact .inr ⟨.file path, s₁, w, .file hbefore hpath, hw, h⟩
        · exact blockFails_of_line (fun _ => .afterFile hbefore hcontent)
            (fun _ => .afterFile hbefore hcontent) h
      by_cases hsymbol : d = some .eqv
      · subst hsymbol
        obtain ⟨f, hf, hp⟩ := fails_eqvDirective.mp h
        exact .inl ⟨f, .symbol hbefore hf, hp⟩
      · exact .inl ⟨_, .stray hbefore hfile hsymbol, (fails_strayDirective hfile hsymbol).mp h⟩
    | definition site body =>
      rcases fails_processBlock_definition.mp h with h | ⟨before, s₁, hbefore, h⟩
      · exact blockFails_of_line (fun _ => .beforeDefinition) (fun _ => .beforeDefinition) h
      -- the macro is refused, or what stands behind its end fails
      rcases fails_defineMacro.mp h with ⟨f, hf, hp⟩ | ⟨m, body, hread, h⟩
      · exact .inl ⟨f, .definition hbefore hf, hp⟩
      · exact blockFails_of_line (fun _ => .afterDefinition hbefore hread)
          (fun _ => .afterDefinition hbefore hread) h
  · rintro (⟨f, hrefused, hp⟩ | ⟨r, m, w, hasks, hw, hfails⟩)
    · exact hrefused.fails hp
    · exact hasks.fails hw hfails

/-! ### Blocks in a row -/

/-- A text fails as a block that it comes to, on the line of the block if the place is not known. -/
theorem fails_processBlocks :
    Fails (processBlocks settings inner frame bs) s p ↔
      ∃ line b s', Arrives settings inner frame s bs line b s' ∧
        Fails (processBlock settings inner frame line b) s' fun d => p (d.atLine line) := by
  induction bs generalizing s with
  | nil => exact iff_of_false not_fails_pure fun ⟨_, _, _, harrives, _⟩ => nomatch harrives
  | cons q bs ih =>
    obtain ⟨line, b⟩ := q
    rw [processBlocks, fails_bind, fails_mapError]
    simp only [yields_mapError, fails_bind_pure, ih]
    constructor
    · rintro (h | ⟨chunk, s₁, hb, line', b', s', harrives, h⟩)
      · exact ⟨line, b, s, .here, h⟩
      · exact ⟨line', b', s', .later hb harrives, h⟩
    · rintro ⟨line', b', s', harrives, h⟩
      cases harrives with
      | here => exact .inl h
      | later hb harrives => exact .inr ⟨_, _, hb, line', b', s', harrives, h⟩

lemma Arrives.mem {b : Block} (h : Arrives settings inner frame s bs line b s') :
    (line, b) ∈ bs := by
  induction h with
  | here => exact List.mem_cons_self
  | later _ _ ih => exact List.mem_cons_of_mem _ ih

/-- What a text asks for is asked for by a block that it comes to. -/
lemma BlocksAsk.arrives {m : MacroTable} (h : BlocksAsk settings inner frame s bs r m) :
    ∃ line b s', Arrives settings inner frame s bs line b s' ∧
      BlockAsks settings inner frame line s' b r m := by
  induction h with
  | here h => exact ⟨_, _, _, .here, h⟩
  | later hb _ ih =>
    obtain ⟨line, b, s', harrives, h⟩ := ih
    exact ⟨line, b, s', .later hb harrives, h⟩

/-! ### Failures of what is asked for -/

lemma Request.fault_seen (r : Request) (d : Diagnostic) : (r.seen d).fault = d.fault := by
  cases r <;> rfl

/-- A text fails as any text that it asks for. -/
lemma BlocksAsk.fails_of_visit {m : MacroTable} {w : Visit}
    (h : BlocksAsk settings inner frame s bs r m) (hw : r.visit? settings frame m = some w)
    {p : Fault → Prop} (hfails : FailsWith (inner w.frame w.text) w.macros p) :
    FailsWith (processBlocks settings inner frame bs) s p := by
  obtain ⟨line, b, s', harrives, hasks⟩ := h.arrives
  refine fails_processBlocks.mpr ⟨line, b, s', harrives, hasks.fails hw ?_⟩
  simpa only [Diagnostic.fault_atLine, Request.fault_seen] using hfails

/-- An inclusion that leads to no text is refused. -/
lemma NamesFile.refused {path : Path} (h : NamesFile settings frame.file s rest path)
    (hnone : (Request.file path).visit? settings frame s = none) :
    ∃ f, FileRefused settings frame s rest f := by
  by_cases hactive : frame.active.contains (settings.files.absolute path)
  · obtain ⟨name, suffix, hread, hlocate⟩ := h
    exact ⟨_, .cyclic hread hlocate hactive⟩
  · cases hsource : settings.files.source path settings.encoding with
    | error f => exact ⟨f, .unreadable h hactive hsource⟩
    | ok content =>
      rw [Request.visit?_file.mpr ⟨hactive, content, hsource, rfl⟩] at hnone
      cases hnone

/-- A text fails if there is no text for what it asks for. -/
lemma BlocksAsk.fails_of_none {m : MacroTable} (h : BlocksAsk settings inner frame s bs r m)
    (hnone : r.visit? settings frame m = none) :
    FailsWith (processBlocks settings inner frame bs) s fun _ => True := by
  obtain ⟨line, b, s', harrives, hasks⟩ := h.arrives
  refine fails_processBlocks.mpr ⟨line, b, s', harrives, ?_⟩
  cases hasks with
  | file hbefore hnames =>
    obtain ⟨f, hf⟩ := hnames.refused hnone
    exact BlockRefuses.fails (.file hbefore hf) trivial
  -- these ask for calls, which always have a text
  | plain | before | afterFile | beforeDefinition | afterDefinition => cases hnone

end Expansion

end MipsAsm
