import MipsAsm.Proofs.Preprocess.Definitions
import MipsAsm.Proofs.Preprocess.DirectiveFree

/-!
# Definitions that are read twice

The definition of a symbol is read where the expansion comes to it, and once more in the expanded
unit, where it takes effect. Both readings give the same definitions in the same order, unless the
text around a definition changes on the way (`Session.process_definitions`).
-/

namespace MipsAsm

open Run

/-! ### What is read -/

/-- What is read of the definition that an event reports. -/
def Event.definition? : Event → Option (Except Fault (Text × Text))
  | .directiveResolved _ keyword rest =>
    if keyword = Directive.eqv.keyword.toList then some (readDefinition rest) else none
  | _ => none

/-- The symbol that an event reports as defined. -/
def Event.symbol? : Event → Option Text
  | .symbolDefined symbol _ => some symbol
  | _                       => none

namespace Block

/-- Macro definitions are the lines with the directive that begins them. -/
lemma ofWord?_of_ofLine {line : Text} {ls : List Text} {site : Scan.WordSite}
    {body : Option MacroBody} (h : ofLine line ls = .definition site body) :
    Directive.ofWord? site.word = some .beginMacro := by
  unfold ofLine at h
  split at h
  · cases h
  · split at h
    · next hword =>
      cases h
      exact hword
    · cases h

end Block

namespace Expansion

/-- Of the directives that are resolved, the definitions of symbols are read. -/
lemma definition?_resolved {site : Scan.WordSite} (h : findDirective? site.text = some site)
    (line : Nat) : (resolved line site).definition? =
      if Directive.ofWord? site.word = some .eqv then some (readDefinition site.after)
      else none := by
  obtain ⟨w, hw⟩ : ∃ w, site.word = '.' :: w :=
    List.head?_eq_some_iff.mp (head?_of_spellsDirective (isFirst_of_findDirective? h).accepted)
  -- the event has the word in lower case and without its dot
  have hdot : Text.lower ('.' :: w) = '.' :: Text.lower w := rfl
  have hsame : Text.lower w = Directive.eqv.keyword.toList ↔
      Directive.ofWord? site.word = some .eqv := by
    rw [Directive.ofWord?_eq_some_iff, hw, hdot, Directive.dotted, List.cons.injEq, eq_comm]
    simp
  rw [resolved, Event.definition?, readDefinition_trimRight, hw, List.drop_one, List.tail_cons]
  exact if_congr (hw ▸ hsame) rfl rfl

/-! ### Texts with their definitions apart -/

/-- What is read of definitions while a text is processed is what the new text defines, if it is
processed to its end. -/
def Faithful (x : Expansion Text) (s : MacroTable) : Prop :=
  ∀ out s', Yields x s out s' → reports Event.definition? x s = definitionsOf out

/-- A line that is not searched for directives defines nothing in front of its first call, and what
the call expands to can stand there. -/
def LineParted (deep : Text → Expansion Text) (s : MacroTable) (l : Text) : Prop :=
  definitionOn? (beforeCall s l) = none ∧
  ∀ site expansion s', Scan.findInCode? (fun w => (s.find? w).isSome) l = some site →
    Yields (expandLine deep l) s (site.before ++ expansion) s' → Parted site.before expansion

section

variable (settings : Settings) (inner : Frame → Text → Expansion Text) (frame : Frame)

/-- No definition comes into being and none is lost or changed where the parts of a block come
together: what a call leaves in front of a directive with what the directive leaves, and an included
file with what follows its name. -/
def BlockParted (line : Nat) (s : MacroTable) : Block → Prop
  | .directive (some .includeFile) site =>
    ∀ before content rest suffix s₁ s₂ s₃,
      Yields (expandLine (inner frame) site.before) s before s₁ →
      Yields (includeFile settings inner frame site.after) s₁ (content, rest) s₂ →
      Yields (expandLine (inner frame) rest) s₂ suffix s₃ →
      LineParted (inner frame) s₂ rest ∧ Parted before content ∧ Parted (before ++ content) suffix
  | .directive (some .eqv) site         =>
    ∀ before s₁, Yields (expandLine (inner frame) site.before) s before s₁ →
      Parted before (site.word ++ site.after)
  | .definition site (some body)        =>
    ∀ before s₁ m, Yields (expandLine (inner frame) site.before) s before s₁ →
      readMacro line site.after (some body) = .ok (m, body) →
      LineParted (inner frame) (s₁.insert m) body.stop.after
  | _                                   => True

/-- The parts of blocks that are processed in order from macros come together in this way. -/
def BlocksParted : MacroTable → List (Nat × Block) → Prop
  | _, []              => True
  | s, (line, b) :: bs =>
    BlockParted settings inner frame line s b ∧
    ∀ chunk s₁, Yields (processBlock settings inner frame line b) s chunk s₁ → BlocksParted s₁ bs

end

/-- The parts of a text that is processed with a number of levels come together in this way. -/
def Visit.Parted (settings : Settings) : (levels : Nat) → Visit → Prop
  | 0,          _ => True
  | levels + 1, v =>
    BlocksParted settings (processText settings levels) v.frame v.macros (Block.ofText v.text)

section

variable {settings : Settings} {inner : Frame → Text → Expansion Text} {frame : Frame}
  {s s' : MacroTable} {line : Nat} {b : Block} {bs : List (Nat × Block)}

/-! ### Lines -/

/-- In a line what is read is read in the text that its first call expands to. -/
lemma LineCalls.reports_expandLine {deep : Text → Expansion Text} {l t : Text}
    (h : LineCalls s l t) :
    reports Event.definition? (expandLine deep l) s = reports Event.definition? (deep t) s := by
  obtain ⟨site, m, arguments, hsite, hm, harguments, rfl⟩ := h
  rw [reports_congr (run_expandLine_of_some hsite hm),
    reports_bind_of_silent fun _ _ => reports_pure _, expandCall,
    reports_bind (yields_lift.mpr ⟨harguments, rfl⟩), reports_log_bind]
  rfl

lemma reports_expandLine_of_none {deep : Text → Expansion Text} {l : Text}
    (h : Scan.findInCode? (fun w => (s.find? w).isSome) l = none) :
    reports Event.definition? (expandLine deep l) s = [] := by
  rw [reports_congr (run_expandLine_of_none h), reports_pure]

/-- A line without directive is parted. -/
lemma lineParted_of_none {deep : Text → Expansion Text} {l : Text} (h : findDirective? l = none)
    (hline : '\n' ∉ l) : LineParted deep s l := by
  have hbefore (site : Scan.WordSite)
      (hsite : Scan.findInCode? (fun w => (s.find? w).isSome) l = some site) :
      findDirective? site.before = none := by
    rw [← Scan.text_of_findInCode? hsite, Scan.WordSite.text, List.append_assoc,
      findDirective?_append fun _ => .inl (Scan.isFirst_of_findInCode? hsite).fresh,
      Option.or_eq_none_iff, Option.map_eq_none_iff] at h
    exact h.1
  constructor
  · rw [beforeCall]
    cases hsite : Scan.findInCode? (fun w => (s.find? w).isSome) l with
    | none => exact definitionOn?_eq_none h
    | some site => exact definitionOn?_eq_none (hbefore site hsite)
  · intro site expansion s' hsite _
    have hfirst := Scan.isFirst_of_findInCode? hsite
    exact .of_none (hfirst.meets expansion) (hbefore site hsite) hfirst.code
      (Scan.not_mem_before hsite hline)

/-- A parted line leaves what its call leaves, and defines nothing else. -/
lemma faithful_expandLine {deep : Text → Expansion Text} {l : Text}
    (hparted : LineParted deep s l) (hline : '\n' ∉ l)
    (hcalls : ∀ t, LineCalls s l t → Faithful (deep t) s) : Faithful (expandLine deep l) s := by
  intro out s' h
  obtain ⟨hnone, hcall⟩ := hparted
  rcases yields_expandLine h with ⟨hsite, rfl, -⟩ | ⟨site, t, expansion, hsite, ht, hdeep, rfl⟩
  · rw [beforeCall, hsite] at hnone
    rw [reports_expandLine_of_none hsite, definitionsOf_of_not_mem hline]
    exact congrArg Option.toList hnone.symm
  · rw [beforeCall, hsite] at hnone
    have hbefore := Scan.not_mem_before hsite hline
    have hnone : definitionOn? site.before = none := hnone
    rw [ht.reports_expandLine, definitionsOf_append (hcall site expansion s' hsite h),
      definitionsOf_of_not_mem hbefore, hnone]
    exact hcalls t ht expansion s' hdeep

/-! ### Included files -/

lemma reports_locate (file : Option Path) (p : Path) :
    reports Event.definition? (locate settings file p) s = [] := by
  have hfirst (ps : List Path) (s : MacroTable) :
      reports Event.definition? (firstExisting? settings.files ps) s = [] := by
    induction ps generalizing s with
    | nil => rfl
    | cons p ps ih =>
      rw [firstExisting?, reports_log_bind]
      split
      · rfl
      · exact ih s
  rw [locate]
  split
  · rfl
  · rw [reports_bind_of_silent fun _ _ => reports_pure _]
    exact hfirst _ s

/-- In an inclusion what is read is read in the file. -/
lemma NamesFile.reports_includeFile {rest : Text} {path : Path} {w : Visit}
    (h : NamesFile settings frame.file s rest path)
    (hw : (Request.file path).visit? settings frame s = some w) :
    reports Event.definition? (includeFile settings inner frame rest) s =
      reports Event.definition? (inner w.frame w.text) w.macros := by
  obtain ⟨name, suffix, hread, hlocate⟩ := h
  rw [Request.visit?] at hw
  split at hw
  · cases hw
  · next hactive =>
    split at hw
    · cases hw
    · next content hcontent =>
      cases hw
      have hsource : reports Event.definition?
          (settings.files.readSource path settings.encoding : Expansion Text) s = [] := by
        rw [Files.readSource, reports_log_bind,
          reports_bind (yields_ofExcept.mpr ⟨mapError_eq_ok.mpr hcontent, rfl⟩)]
        rfl
      rw [includeFile, reports_bind (yields_lift.mpr ⟨hread, rfl⟩), reports_bind hlocate,
        reports_locate]
      dsimp only
      rw [if_neg hactive, reports_bind (yields_readSource.mpr ⟨hcontent, rfl⟩), hsource,
        reports_bind_of_silent fun _ _ => rfl]
      rfl

lemma reports_eq_of_includeFile {rest content suffix : Text}
    (h : Yields (includeFile settings inner frame rest) s (content, suffix) s')
    (hfiles : ∀ path w, NamesFile settings frame.file s rest path →
      (Request.file path).visit? settings frame s = some w →
      Faithful (inner w.frame w.text) w.macros) :
    reports Event.definition? (includeFile settings inner frame rest) s =
      definitionsOf content := by
  obtain ⟨-, path, w, hnames, hvisit, hinner⟩ := visit_of_yields_includeFile h
  rw [hnames.reports_includeFile hvisit]
  exact hfiles path w hnames hvisit content s' hinner

/-! ### Blocks -/

/-- A definition is read when what stands in front of it is expanded. -/
lemma reports_directive {site : Scan.WordSite} {d : Option Directive} {before : Text}
    {s₁ : MacroTable} (hfirst : findDirective? site.text = some site)
    (hexpand : Yields (expandLine (inner frame) site.before) s before s₁) :
    reports Event.definition? (processBlock settings inner frame line (.directive d site)) s =
      reports Event.definition? (expandLine (inner frame) site.before) s ++
        ((if Directive.ofWord? site.word = some .eqv then some (readDefinition site.after)
          else none).toList ++
        reports Event.definition? (resolve settings inner frame site d) s₁) := by
  rw [processBlock, reports_bind hexpand, reports_log_bind, definition?_resolved hfirst,
    reports_bind_of_silent fun _ _ => reports_pure _]

/-- Nothing is read of the body of a macro. -/
lemma reports_definition {site : Scan.WordSite} {body : MacroBody} {m : Macro} {before : Text}
    {s₁ : MacroTable} (hfirst : findDirective? site.text = some site)
    (hword : Directive.ofWord? site.word = some .beginMacro)
    (hexpand : Yields (expandLine (inner frame) site.before) s before s₁)
    (hread : readMacro line site.after (some body) = .ok (m, body)) :
    reports Event.definition? (processBlock settings inner frame line (.definition site body)) s =
      reports Event.definition? (expandLine (inner frame) site.before) s ++
        reports Event.definition? (expandLine (inner frame) body.stop.after) (s₁.insert m) := by
  rw [processBlock, reports_bind hexpand, reports_log_bind, definition?_resolved hfirst, hword,
    reports_bind_of_silent fun _ _ => reports_pure _, defineMacro,
    reports_bind (yields_lift.mpr ⟨hread, rfl⟩), reports_modify_bind, reports_log_bind,
    reports_bind_of_silent fun _ _ => reports_pure _]
  rfl

/-- A block whose parts come together well is read as what it leaves. -/
lemma faithful_processBlock (hsited : b.Sited) (hone : b.OneLine)
    (hword : ∀ site body, b = .definition site body →
      Directive.ofWord? site.word = some .beginMacro)
    (hparted : BlockParted settings inner frame line s b)
    (hasks : ∀ r m w, BlockAsks settings inner frame line s b r m →
      r.visit? settings frame m = some w → Faithful (inner w.frame w.text) w.macros) :
    Faithful (processBlock settings inner frame line b) s := by
  intro out s' h
  have hcalls (t : Text) (m : MacroTable)
      (hr : BlockAsks settings inner frame line s b (.call t) m) : Faithful (inner frame t) m :=
    hasks _ m ⟨frame, t, m⟩ hr rfl
  cases b with
  | plain text =>
    have hline : '\n' ∉ text := hone
    have hfaithful : Faithful (expandLine (inner frame) text) s :=
      faithful_expandLine (lineParted_of_none hsited hline) hline
        fun t ht => hcalls t s (.plain ht)
    exact hfaithful out s' h
  | directive d site =>
    obtain ⟨hfirst, rfl⟩ := hsited
    have hsite : '\n' ∉ site.text := hone
    obtain ⟨hbefore, hword, hafter⟩ := Scan.WordSite.not_mem_text.mp hsite
    obtain ⟨before, s₁, hexpand, hresolved⟩ := yields_processBlock_directive h
    -- in front of the directive there is no other one, so that only a call there can define symbols
    have hbefore' := faithful_expandLine (lineParted_of_none (findDirective?_before hfirst) hbefore)
      hbefore (fun t ht => hcalls t s (.before ht)) before s₁ hexpand
    rw [reports_directive hfirst hexpand, hbefore']
    -- a file, whose definitions come before those of what follows its name, or a definition
    rcases hresolved with ⟨hd, content, rest, s₂, suffix, hfile, hsuffix, rfl⟩ | ⟨hd, rfl, rfl⟩
    · rw [hd] at hparted hasks hcalls ⊢
      obtain ⟨hrest, hmeets, hmeets'⟩ := hparted _ _ _ _ _ _ _ hexpand hfile hsuffix
      obtain ⟨⟨name, hname⟩, -⟩ := visit_of_yields_includeFile hfile
      have hcontent := reports_eq_of_includeFile hfile
        fun path w hpath hw => hasks _ _ w (.file hexpand hpath) hw
      have hsuffix' := faithful_expandLine hrest
        (fun hmem => hafter (suffix_subset_of_readIncludeName hname hmem))
        (fun t ht => hcalls t s₂ (.afterFile hexpand hfile ht)) suffix s' hsuffix
      rw [resolve, reports_bind hfile, hcontent, reports_bind_of_silent fun _ _ => reports_pure _,
        hsuffix', ← List.append_assoc before, definitionsOf_append hmeets',
        definitionsOf_append hmeets, List.append_assoc]
      rfl
    · have hmem : '\n' ∉ site.word ++ site.after := by simp [hword, hafter]
      have hdefinition : definitionsOf (site.word ++ site.after) = [readDefinition site.after] := by
        rw [definitionsOf_of_not_mem hmem, definitionOn?_from hfirst hd]
        rfl
      have hsilent : reports Event.definition?
          (resolve settings inner frame site (some .eqv)) s₁ = [] :=
        reports_bind_of_silent fun _ _ => reports_pure _
      rw [hd] at hparted ⊢
      rw [definitionsOf_append (hparted _ _ hexpand), hdefinition, hsilent]
      rfl
  | definition site body =>
    obtain ⟨before, s₁, m, body, suffix, hexpand, rfl, hread, hsuffix, rfl⟩ :=
      yields_processBlock_definition h
    obtain ⟨hsite, hstop⟩ := hone
    rw [Scan.WordSite.not_mem_text] at hsite hstop
    have hbefore' := faithful_expandLine (lineParted_of_none (findDirective?_before hsited) hsite.1)
      hsite.1 (fun t ht => hcalls t s (.beforeDefinition ht)) before s₁ hexpand
    have hsuffix' := faithful_expandLine (hparted _ _ _ hexpand hread) hstop.2.2
      (fun t ht => hcalls t _ (.afterDefinition hexpand hread ht)) suffix s' hsuffix
    rw [reports_definition hsited (hword _ _ rfl) hexpand hread, hbefore', hsuffix',
      MacroBody.height, List.replicate_succ, List.cons_append, definitionsOf_append_newline,
      definitionsOf_replicate]

/-! ### Texts -/

lemma reports_processBlocks {chunks : List Text}
    (hblocks : ∀ p ∈ bs, p.2.Sited ∧ p.2.OneLine ∧ ∀ site body, p.2 = .definition site body →
      Directive.ofWord? site.word = some .beginMacro)
    (hparted : BlocksParted settings inner frame s bs)
    (hasks : ∀ r m w, BlocksAsk settings inner frame s bs r m →
      r.visit? settings frame m = some w → Faithful (inner w.frame w.text) w.macros)
    (h : Yields (processBlocks settings inner frame bs) s chunks s') :
    reports Event.definition? (processBlocks settings inner frame bs) s =
      chunks.flatMap definitionsOf := by
  induction bs generalizing s chunks with
  | nil =>
    obtain ⟨rfl, -⟩ := yields_processBlocks_nil.mp h
    rfl
  | cons p bs ih =>
    obtain ⟨line, b⟩ := p
    rw [List.forall_mem_cons] at hblocks
    obtain ⟨⟨hsited, hone, hword⟩, hblocks⟩ := hblocks
    obtain ⟨hfirst, hlater⟩ := hparted
    obtain ⟨chunk, s₁, rest, hchunk, hrest, rfl⟩ := yields_processBlocks_cons.mp h
    have hchunk' := faithful_processBlock hsited hone hword hfirst
      (fun r m w hr => hasks r m w (.here hr)) chunk s₁ hchunk
    have hrest' := ih hblocks (hlater _ _ hchunk)
      (fun r m w hr => hasks r m w (.later hchunk hr)) hrest
    rw [processBlocks, reports_bind (yields_mapError.mpr hchunk), reports_mapError, hchunk',
      reports_bind_of_silent fun _ _ => reports_pure _, hrest', List.flatMap_cons]

/-- While a text is expanded, the definitions are read that the expanded text holds, if the parts of
all that it comes to come together well. -/
theorem faithful_processText {levels : Nat} {v : Visit}
    (hparted : ∀ depth w, Reaches settings levels v depth w →
      w.Parted settings (levels - depth)) :
    Faithful (processText settings levels v.frame v.text) v.macros := by
  induction levels generalizing v with
  | zero => exact fun out s' h => absurd h yields_throw
  | succ levels ih =>
    intro out s' h
    obtain ⟨_, chunks, ⟨⟩, hchunks, rfl⟩ := yields_processText h
    have hblocks := reports_processBlocks (fun p hp => ⟨Block.sited_of_mem_ofText hp,
      Block.oneLine_of_mem_ofText hp, fun site body hb => ?_⟩) (hparted 0 v .self)
      (fun r m w hasks hw => ih fun depth u hu => ?_) hchunks
    · rw [processText, reports_bind_of_silent fun _ _ => reports_pure _, hblocks,
        definitionsOf_joinLines (ne_nil_of_yields hchunks (Block.ofText_ne_nil v.text))]
    · obtain ⟨line, following, -, hline⟩ := Block.eq_ofLine_of_mem_ofLinesFrom hp
      exact Block.ofWord?_of_ofLine (hline.symm.trans hb)
    · have := hparted (depth + 1) u (hu.head hasks hw)
      rwa [Nat.add_sub_add_right] at this

end

end Expansion

/-! ### Units -/

/-- The symbols whose definitions a unit holds become defined, in the order of its lines. -/
lemma UnitLine.reports_readAll {σ : Type} {s s' : σ} {above : SymbolTable} {lines : List Text}
    {units : List UnitLine} (h : Yields (readAll above lines) s units s') :
    ∃ ds : List (Text × Text), lines.filterMap definitionOn? = ds.map .ok ∧
      reports Event.symbol? (readAll above lines : Run σ _ _) s = ds.map Prod.fst := by
  induction lines generalizing above s s' units with
  | nil => exact ⟨[], rfl, rfl⟩
  | cons line lines ih =>
    rw [readAll] at h ⊢
    cases hsite : definitionSite? line with
    | none =>
      rw [hsite] at h
      obtain ⟨rest, s₁, hrest, -⟩ := yields_bind.mp h
      obtain ⟨ds, hds, hreports⟩ := ih hrest
      have hline : definitionOn? line = none := by rw [definitionOn?, hsite]; rfl
      refine ⟨ds, ?_, ?_⟩
      · simp [hline, hds]
      · rw [← hreports]
        exact reports_bind_of_silent fun _ _ => reports_pure _
    | some site =>
      rw [hsite] at h
      obtain ⟨d, s₁, hread, h⟩ := yields_bind.mp h
      obtain ⟨_, s₂, hlog, h⟩ := yields_bind.mp h
      obtain ⟨rest, s₃, hrest, -⟩ := yields_bind.mp h
      obtain rfl := yields_log.mp hlog
      obtain ⟨ds, hds, hreports⟩ := ih hrest
      have hline : definitionOn? line = some (.ok d) := by
        rw [definitionOn?, hsite, Option.map_some, mapError_eq_ok.mp (yields_ofExcept.mp hread).1]
      refine ⟨d :: ds, ?_, ?_⟩
      · simp [hline, hds]
      · dsimp only
        rw [reports_bind hread, reports_log_bind, reports_bind_of_silent fun _ _ => reports_pure _,
          hreports]
        rfl

lemma reports_replaceSymbols {σ : Type} {s s' : σ} {unit : Text} {p : Text × Option SymbolTable}
    (h : Yields (replaceSymbols unit) s p s') :
    ∃ ds : List (Text × Text), definitionsOf unit = ds.map .ok ∧
      reports Event.symbol? (replaceSymbols unit : Run σ _ _) s = ds.map Prod.fst := by
  obtain ⟨units, s₁, hread, -⟩ := yields_bind.mp h
  obtain ⟨ds, hds, hreports⟩ := UnitLine.reports_readAll hread
  refine ⟨ds, hds, ?_⟩
  rw [replaceSymbols, reports_bind_of_silent, hreports]
  intro units s'
  split
  · rfl
  · rfl

namespace Session

open Expansion

/-- The definitions that the expansion reads are those that the expanded unit holds, in the same
order, and their symbols become defined. -/
theorem process_definitions {settings : Settings} {text out : Text} {s : Session}
    (hparted : ∀ depth v, Comes settings text s settings.levels depth v →
      v.Parted settings (settings.levels - depth))
    (hout : ((process settings text).run s).result = .ok out) :
    ∃ (unit : Text) (m : MacroTable) (ds : List (Text × Text)),
      Yields (expand settings text) s.macros unit m ∧
      reports Event.definition? (expand settings text) s.macros = ds.map .ok ∧
      definitionsOf unit = ds.map .ok ∧
      reports Event.symbol? (replaceSymbols unit) { s with macros := m } = ds.map Prod.fst := by
  obtain ⟨unit, _, hunit, h⟩ := yields_bind.mp (yields_of_ok hout)
  obtain ⟨m, hexpand, rfl⟩ := yields_focus.mp hunit
  obtain ⟨p, s₂, hreplace, -⟩ := yields_bind.mp h
  obtain ⟨ds, hds, hsymbols⟩ := reports_replaceSymbols hreplace
  have hfaithful := faithful_processText (v := ⟨settings.outermost, text, s.macros⟩) hparted
  exact ⟨unit, m, ds, hexpand, (hfaithful unit m hexpand).trans hds, hds, hsymbols⟩

lemma parted_quotedDirective {depth : Nat} {v : Visit}
    (h : Comes (withoutFiles 16) quotedDirective {} 17 depth v) :
    v.Parted (withoutFiles 16) (17 - depth) := by
  rcases comes_quotedDirective h with ⟨rfl, rfl⟩ | ⟨rfl, rfl⟩
  · show BlocksParted _ _ _ _ (Block.ofText quotedDirective)
    rw [ofText_quotedDirective]
    refine ⟨fun before s₁ m hbefore hread => ?_, fun chunk s₁ hfirst => ?_⟩
    · exact lineParted_of_none (by decide +kernel) (by decide)
    obtain rfl := hfirst.2.symm.trans (by decide +kernel : _ = [trailingBlank])
    refine ⟨fun before s₁ hbefore => ?_, fun chunk s₁ hsecond => ⟨trivial, fun _ _ _ => trivial⟩⟩
    obtain rfl := Except.ok.inj (hbefore.1.symm.trans
      (by decide +kernel : _ = Except.ok "nop ".toList))
    refine .of_none (.inr (.inr ⟨?_, .inl ?_⟩)) ?_ ?_ ?_
    all_goals decide +kernel
  · show BlocksParted _ _ _ _ (Block.ofText "nop ".toList)
    rw [show Block.ofText "nop ".toList = [(1, .plain "nop ".toList)] by decide +kernel]
    exact ⟨trivial, fun _ _ _ => trivial⟩

theorem process_definitions_quotedDirective :
    (∀ depth v, Comes (withoutFiles 16) quotedDirective {} 17 depth v →
      v.Parted (withoutFiles 16) (17 - depth)) ∧
    ((process (withoutFiles 16) quotedDirective).run {}).result =
      .ok "\n\n # .macro\nnop \n\".macro\"".toList ∧
    ∃ unit m, Yields (expand (withoutFiles 16) quotedDirective) [] unit m ∧
      reports Event.definition? (expand (withoutFiles 16) quotedDirective) [] =
        [.ok (['E'], "\".macro\"".toList)] ∧
      definitionsOf unit = [.ok (['E'], "\".macro\"".toList)] ∧
      reports Event.symbol? (replaceSymbols unit) ({ macros := m } : Session) = [['E']] := by
  have hout : ((process (withoutFiles 16) quotedDirective).run {}).result =
      .ok "\n\n # .macro\nnop \n\".macro\"".toList := by
    decide +kernel
  obtain ⟨unit, m, ds, hexpand, hread, hunit, hsymbols⟩ :=
    process_definitions (fun depth v h => parted_quotedDirective h) hout
  have hone : reports Event.definition? (expand (withoutFiles 16) quotedDirective) [] =
      [.ok (['E'], "\".macro\"".toList)] := by
    decide +kernel
  have hok : Function.Injective (Except.ok : Text × Text → Except Fault (Text × Text)) :=
    fun _ _ => Except.ok.inj
  obtain rfl : ds = [(['E'], "\".macro\"".toList)] :=
    hok.list_map (hread.symm.trans hone)
  exact ⟨fun depth v h => parted_quotedDirective h, hout, unit, m, hexpand, hread, hunit, hsymbols⟩

/-- A text is preprocessed in a new session, and the definitions that the expansion reads are not
those that the expanded unit holds. -/
def ReadsOtherDefinitions (settings : Settings) (text : Text) : Prop :=
  ∃ out unit, ((process settings text).run {}).result = .ok out ∧
    ((expand settings text).run []).result = .ok unit ∧
    reports Event.definition? (expand settings text) [] ≠ definitionsOf unit

/-- What stands behind the end of a macro or behind the name of a file is not searched, but it may
define a symbol in the unit. Where the expansion of a call stands in front of a definition, the two
may make up another word, the definition may come to stand in a literal or in a comment, or it may
become part of the value of another one. -/
theorem process_readsOtherDefinitions :
    ReadsOtherDefinitions (withoutFiles 16) ".macro m\n.end_macro .eqv A 1".toList ∧
    ReadsOtherDefinitions besideNop ".include \"x\" .eqv A 1".toList ∧
    ReadsOtherDefinitions (withoutFiles 16) ".macro m\nnop\n.end_macro\nm .eqv A 1".toList ∧
    ReadsOtherDefinitions (withoutFiles 16) ".macro m\n\"\n.end_macro\nm .eqv A 1".toList ∧
    ReadsOtherDefinitions (withoutFiles 16) ".macro m\n# \n.end_macro\nm .eqv A 1".toList ∧
    ReadsOtherDefinitions (withoutFiles 16)
      ".macro m\n.eqv A 1 \n.end_macro\nm .eqv B 2".toList := by
  exact ⟨⟨"\n ".toList, "\n .eqv A 1".toList, by decide +kernel⟩,
    ⟨"nop ".toList, "nop .eqv A 1".toList, by decide +kernel⟩,
    ⟨"\n\n\nnop.eqv A 1".toList, "\n\n\nnop.eqv A 1".toList, by decide +kernel⟩,
    ⟨"\n\n\n\".eqv A 1".toList, "\n\n\n\".eqv A 1".toList, by decide +kernel⟩,
    ⟨"\n\n\n# .eqv A 1".toList, "\n\n\n# .eqv A 1".toList, by decide +kernel⟩,
    ⟨"\n\n\n".toList, "\n\n\n.eqv A 1 .eqv B 2".toList, by decide +kernel⟩⟩

end Session

end MipsAsm
