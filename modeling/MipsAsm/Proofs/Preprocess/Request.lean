import MipsAsm.Proofs.Preprocess.Success

/-!
# What a text asks for

While a text is processed, its macro calls and the files that it includes ask for other texts:
`Expansion.BlocksAsk`. The run of the text depends on other texts only through these
(`run_processBlocks_congr`).
-/

namespace MipsAsm

namespace Expansion

open Run

/-- What is asked for: the text that a macro call expands to, or a file. -/
inductive Request where
  | call (text : Text)
  | file (path : Path)

/-- A text that is processed: its frame, and the macros that are known when it begins. -/
structure Visit where
  frame  : Frame
  text   : Text
  macros : MacroTable
deriving DecidableEq

/-- The text that a request leads to from a frame. A file that led to the frame leads to none, nor
does one that cannot be read. -/
def Request.visit? (settings : Settings) (frame : Frame) (macros : MacroTable) :
    Request → Option Visit
  | .call text => some ⟨frame, text, macros⟩
  | .file path =>
    if frame.active.contains (settings.files.absolute path) then none
    else
      match settings.files.source path settings.encoding with
      | .error _    => none
      | .ok content =>
        some ⟨⟨some path, settings.files.absolute path :: frame.active⟩, content, macros⟩

/-- The first macro call in a line expands to a text. -/
def LineCalls (macros : MacroTable) (line text : Text) : Prop :=
  ∃ site m arguments, Scan.findInCode? (fun w => (macros.find? w).isSome) line = some site ∧
    macros.find? site.word = some m ∧ callArguments m site.after = .ok arguments ∧
    text = m.instantiate arguments

/-- What follows an `.include` names the file at a path. -/
def NamesFile (settings : Settings) (file : Option Path) (macros : MacroTable) (rest : Text)
    (path : Path) : Prop :=
  ∃ name suffix, readIncludeName rest = .ok (name, suffix) ∧
    Yields (locate settings file (Path.ofText name)) macros path macros

section

variable (settings : Settings) (inner : Frame → Text → Expansion Text) (frame : Frame)

/-- While a block is processed from macros, there is a request with other macros known. -/
inductive BlockAsks (line : Nat) (s : MacroTable) : Block → Request → MacroTable → Prop where
  | plain {text t : Text} (h : LineCalls s text t) : BlockAsks line s (.plain text) (.call t) s
  | before {d : Option Directive} {site : Scan.WordSite} {t : Text}
      (h : LineCalls s site.before t) : BlockAsks line s (.directive d site) (.call t) s
  | file {site : Scan.WordSite} {before : Text} {s₁ : MacroTable} {path : Path}
      (hbefore : Yields (expandLine (inner frame) site.before) s before s₁)
      (h : NamesFile settings frame.file s₁ site.after path) :
      BlockAsks line s (.directive (some .includeFile) site) (.file path) s₁
  | afterFile {site : Scan.WordSite} {before rest content t : Text} {s₁ s₂ : MacroTable}
      (hbefore : Yields (expandLine (inner frame) site.before) s before s₁)
      (hfile : Yields (includeFile settings inner frame site.after) s₁ (content, rest) s₂)
      (h : LineCalls s₂ rest t) :
      BlockAsks line s (.directive (some .includeFile) site) (.call t) s₂
  | beforeDefinition {site : Scan.WordSite} {body : Option MacroBody} {t : Text}
      (h : LineCalls s site.before t) : BlockAsks line s (.definition site body) (.call t) s
  | afterDefinition {site : Scan.WordSite} {body : Option MacroBody} {m : Macro} {b : MacroBody}
      {before t : Text} {s₁ : MacroTable}
      (hbefore : Yields (expandLine (inner frame) site.before) s before s₁)
      (hread : readMacro line site.after body = .ok (m, b))
      (h : LineCalls (s₁.insert m) b.stop.after t) :
      BlockAsks line s (.definition site body) (.call t) (s₁.insert m)

/-- While blocks are processed in order from macros, there is a request with other macros known. -/
inductive BlocksAsk :
    MacroTable → List (Nat × Block) → Request → MacroTable → Prop where
  | here {s s' : MacroTable} {line : Nat} {b : Block} {bs : List (Nat × Block)} {r : Request}
      (h : BlockAsks settings inner frame line s b r s') : BlocksAsk s ((line, b) :: bs) r s'
  | later {s s₁ s' : MacroTable} {line : Nat} {b : Block} {bs : List (Nat × Block)} {r : Request}
      {chunk : Text} (hb : Yields (processBlock settings inner frame line b) s chunk s₁)
      (h : BlocksAsk s₁ bs r s') : BlocksAsk s ((line, b) :: bs) r s'

end

variable {settings : Settings} {frame : Frame} {s s' : MacroTable} {line : Nat} {b : Block}
  {bs : List (Nat × Block)} {r : Request}

/-! ### Lines and files -/

section

variable {inner inner' : Text → Expansion Text} {l out : Text}

/-- A line without call stays as it is. In a line with a call, what follows the call is lost, and
what it expands to takes its place. -/
lemma run_expandLine (inner : Text → Expansion Text) (l : Text) (s : MacroTable) :
    (expandLine inner l).run s =
      match Scan.findInCode? (fun w => (s.find? w).isSome) l with
      | none      => (pure l : Expansion Text).run s
      | some site =>
        match s.find? site.word with
        | none   => (pure l : Expansion Text).run s
        | some m =>
          (expandCall inner m site.after >>= fun out => pure (site.before ++ out)).run s := by
  show (match Scan.findInCode? (fun w => (s.find? w).isSome) l with
      | none      => pure l
      | some site =>
        match s.find? site.word with
        | none   => pure l
        | some m => expandCall inner m site.after >>= fun out => pure (site.before ++ out) :
    Expansion Text).run s = _
  split
  · rfl
  · split <;> rfl

lemma run_expandLine_of_none
    (h : Scan.findInCode? (fun w => (s.find? w).isSome) l = none) :
    (expandLine inner l).run s = (pure l : Expansion Text).run s := by
  rw [run_expandLine, h]

lemma run_expandLine_of_some {site : Scan.WordSite} {m : Macro}
    (hsite : Scan.findInCode? (fun w => (s.find? w).isSome) l = some site)
    (hm : s.find? site.word = some m) :
    (expandLine inner l).run s =
      (expandCall inner m site.after >>= fun out => pure (site.before ++ out)).run s := by
  rw [run_expandLine, hsite]
  dsimp only
  rw [hm]

lemma run_expandLine_congr
    (h : ∀ t, LineCalls s l t → (inner t).run s = (inner' t).run s) :
    (expandLine inner l).run s = (expandLine inner' l).run s := by
  rw [run_expandLine, run_expandLine]
  split
  · rfl
  · next site hsite =>
    split
    · rfl
    · next m hm =>
      -- up to the expansion the two runs are one, and this leaves the macros as they are
      refine run_bind_congr (run_bind_congr rfl fun arguments s₁ harguments => ?_) fun _ _ _ => rfl
      obtain ⟨hok, rfl⟩ := yields_lift.mp harguments
      refine run_bind_congr rfl fun _ s₁ hlog => ?_
      obtain rfl := yields_log.mp hlog
      exact h _ ⟨site, m, arguments, hsite, hm, hok, rfl⟩

lemma not_lineCalls {t : Text} (h : Scan.findInCode? (fun w => (s.find? w).isSome) l = none) :
    ¬ LineCalls s l t := by
  rintro ⟨site, m, arguments, hsite, -⟩
  cases h.symm.trans hsite

end

variable {inner inner' : Frame → Text → Expansion Text} {rest : Text} {path : Path}

lemma state_of_yields_locate {file : Option Path} {q : Path}
    (h : Yields (locate settings file q) s path s') : s = s' := by
  have hfirst (ps : List Path) (found : Option Path)
      (h : Yields (firstExisting? settings.files ps) s found s') : s = s' := by
    induction ps with
    | nil => exact (yields_pure.mp h).2
    | cons p ps ih =>
      obtain ⟨_, s₁, hlog, h⟩ := yields_bind.mp h
      obtain rfl := yields_log.mp hlog
      split at h
      · exact (yields_pure.mp h).2
      · exact ih h
  rw [locate] at h
  split at h
  · exact (yields_pure.mp h).2
  · obtain ⟨found, s₁, hfound, h⟩ := yields_bind.mp h
    obtain ⟨-, rfl⟩ := yields_pure.mp h
    exact hfirst _ _ hfound

lemma Request.visit?_file {w : Visit} :
    (Request.file path).visit? settings frame s = some w ↔
      ¬ frame.active.contains (settings.files.absolute path) ∧
      ∃ content, settings.files.source path settings.encoding = .ok content ∧
        ⟨⟨some path, settings.files.absolute path :: frame.active⟩, content, s⟩ = w := by
  rw [visit?]
  split
  · next hactive => exact iff_of_false nofun fun h => h.1 hactive
  · next hactive =>
    rw [and_iff_right hactive]
    cases settings.files.source path settings.encoding <;> simp

lemma run_includeFile_congr
    (h : ∀ path w, NamesFile settings frame.file s rest path →
      (Request.file path).visit? settings frame s = some w →
      (inner w.frame w.text).run w.macros = (inner' w.frame w.text).run w.macros) :
    (includeFile settings inner frame rest).run s =
      (includeFile settings inner' frame rest).run s := by
  refine run_bind_congr rfl fun ⟨name, suffix⟩ s₁ hlift => ?_
  obtain ⟨hread, rfl⟩ := yields_lift.mp hlift
  refine run_bind_congr rfl fun path s₁ hlocate => ?_
  obtain rfl := state_of_yields_locate hlocate
  dsimp only
  split
  · rfl
  · next hactive =>
    refine run_bind_congr rfl fun content s₁ hsource => ?_
    obtain ⟨hcontent, rfl⟩ := yields_readSource.mp hsource
    refine run_bind_congr (run_mapError_congr ?_ _) fun _ _ _ => rfl
    exact h path _ ⟨name, suffix, hread, hlocate⟩
      (Request.visit?_file.mpr ⟨hactive, content, hcontent, rfl⟩)

/-! ### Blocks -/

lemma run_processBlock_congr
    (h : ∀ r m w, BlockAsks settings inner frame line s b r m → r.visit? settings frame m = some w →
      (inner w.frame w.text).run w.macros = (inner' w.frame w.text).run w.macros) :
    (processBlock settings inner frame line b).run s =
      (processBlock settings inner' frame line b).run s := by
  cases b with
  | plain text => exact run_expandLine_congr fun t ht => h _ _ _ (.plain ht) rfl
  | directive d site =>
    refine run_bind_congr (run_expandLine_congr fun t ht => h _ _ _ (.before ht) rfl)
      fun before s₁ hbefore => ?_
    refine run_bind_congr rfl fun _ s₁' hlog => ?_
    obtain rfl := yields_log.mp hlog
    refine run_bind_congr ?_ fun _ _ _ => rfl
    unfold resolve
    split
    · refine run_bind_congr
        (run_includeFile_congr fun path w hpath => h _ _ w (.file hbefore hpath))
        fun ⟨content, rest⟩ s₂ hfile => ?_
      refine run_bind_congr (run_expandLine_congr fun t ht => ?_) fun _ _ _ => rfl
      exact h _ _ _ (.afterFile hbefore hfile ht) rfl
    · rfl
    · rfl
  | definition site body =>
    refine run_bind_congr (run_expandLine_congr fun t ht => h _ _ _ (.beforeDefinition ht) rfl)
      fun before s₁ hbefore => ?_
    refine run_bind_congr rfl fun _ s₁' hlog => ?_
    obtain rfl := yields_log.mp hlog
    refine run_bind_congr ?_ fun _ _ _ => rfl
    refine run_bind_congr rfl fun ⟨m, b⟩ s₂ hlift => ?_
    obtain ⟨hread, rfl⟩ := yields_lift.mp hlift
    refine run_bind_congr rfl fun _ s₂ hinsert => ?_
    obtain rfl := yields_modify.mp hinsert
    refine run_bind_congr rfl fun _ s₂ hlog => ?_
    obtain rfl := yields_log.mp hlog
    refine run_bind_congr (run_expandLine_congr fun t ht => ?_) fun _ _ _ => rfl
    exact h _ _ _ (.afterDefinition hbefore hread ht) rfl

/-- The run of a text depends on other texts only through those that it asks for. -/
theorem run_processBlocks_congr
    (h : ∀ r m w, BlocksAsk settings inner frame s bs r m → r.visit? settings frame m = some w →
      (inner w.frame w.text).run w.macros = (inner' w.frame w.text).run w.macros) :
    (processBlocks settings inner frame bs).run s =
      (processBlocks settings inner' frame bs).run s := by
  induction bs generalizing s with
  | nil => rfl
  | cons p bs ih =>
    obtain ⟨line, b⟩ := p
    have hblock : (processBlock settings inner frame line b).run s =
        (processBlock settings inner' frame line b).run s :=
      run_processBlock_congr fun r m w hr => h r m w (.here hr)
    refine run_bind_congr (run_mapError_congr hblock _) fun chunk s₁ hchunk => ?_
    refine run_bind_congr (ih fun r m w hr => h r m w ?_) fun _ _ _ => rfl
    exact .later (yields_mapError.mp hchunk) hr

/-! ### Other ways to process what is asked for -/

lemma BlockAsks.of_congr {m : MacroTable} (h : BlockAsks settings inner frame line s b r m)
    (heq : ∀ r m w, BlockAsks settings inner' frame line s b r m →
      r.visit? settings frame m = some w →
      (inner w.frame w.text).run w.macros = (inner' w.frame w.text).run w.macros) :
    BlockAsks settings inner' frame line s b r m := by
  have hline {l : Text} (hl : ∀ t, LineCalls s l t →
      BlockAsks settings inner' frame line s b (.call t) s) :
      (expandLine (inner frame) l).run s = (expandLine (inner' frame) l).run s :=
    run_expandLine_congr fun t ht => heq _ _ ⟨frame, t, s⟩ (hl t ht) rfl
  cases h with
  | plain h => exact .plain h
  | before h => exact .before h
  | file hbefore h => exact .file ((yields_congr (hline fun _ => .before)).mp hbefore) h
  | afterFile hbefore hfile h =>
    -- what stands in front comes to the same, and so the inclusion begins from the same macros
    have hbefore' := (yields_congr (hline fun _ => .before)).mp hbefore
    have hinclude := run_includeFile_congr fun path w hpath => heq _ _ w (.file hbefore' hpath)
    exact .afterFile hbefore' ((yields_congr hinclude).mp hfile) h
  | beforeDefinition h => exact .beforeDefinition h
  | afterDefinition hbefore hread h =>
    exact .afterDefinition ((yields_congr (hline fun _ => .beforeDefinition)).mp hbefore) hread h

/-- If what is asked for in a second way is processed alike in the first, then nothing else is asked
for in the first. -/
lemma BlocksAsk.of_congr {m : MacroTable} (h : BlocksAsk settings inner frame s bs r m)
    (heq : ∀ r m w, BlocksAsk settings inner' frame s bs r m →
      r.visit? settings frame m = some w →
      (inner w.frame w.text).run w.macros = (inner' w.frame w.text).run w.macros) :
    BlocksAsk settings inner' frame s bs r m := by
  induction h with
  | here h => exact .here (h.of_congr fun r m w hr => heq r m w (.here hr))
  | later hb _ ih =>
    have hblock := run_processBlock_congr fun r m w hr hw => (heq r m w (.here hr) hw).symm
    have hb' := (yields_congr hblock).mpr hb
    exact .later hb' (ih fun r m w hr => heq r m w (.later hb' hr))

end Expansion

end MipsAsm
