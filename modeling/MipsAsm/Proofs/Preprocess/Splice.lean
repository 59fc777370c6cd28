import MipsAsm.Preprocess.Session
import MipsAsm.Proofs.Preprocess.Block
import MipsAsm.Proofs.Preprocess.Expansion
import MipsAsm.Proofs.Preprocess.Success
import MipsAsm.Proofs.Text.Lines

/-!
# Inclusion is a splice

A file beside the source that is included on a line of its own might as well stand there:
`Session.process_include`.
-/

namespace MipsAsm

open Run

/-- The line that includes a file. -/
def includeLine (name : Text) : Text := ".include \"".toList ++ (name ++ ['"'])

/-- A name that leads from a directory to something in it, and that fits between quotes. -/
structure IsPlainName (name : Text) : Prop where
  ne_nil        : name ≠ []
  ne_dot        : name ≠ ['.']
  slash_not_mem : '/' ∉ name
  quote_not_mem : '"' ∉ name

/-- The place of the directive on a line that includes a file. -/
def includeSite (name : Text) : Scan.WordSite :=
  ⟨[], Directive.includeFile.dotted, ' ' :: '"' :: (name ++ ['"'])⟩

lemma ofLine_includeLine (name : Text) (following : List Text) :
    Block.ofLine (includeLine name) following =
      .directive (some .includeFile) (includeSite name) := rfl

namespace IsPlainName

variable {name : Text} (h : IsPlainName name)
include h

lemma splitSlashes_eq : Path.splitSlashes name = [name] := by
  have := h.slash_not_mem
  clear h
  induction name with
  | nil => rfl
  | cons c name ih =>
    rw [List.mem_cons, not_or] at this
    rw [Path.splitSlashes, if_neg (Ne.symm this.1), ih this.2]
    rfl

lemma rootOf_eq : Path.rootOf name = .relative := by
  cases name with
  | nil => rfl
  | cons c name =>
    have hc : c ≠ '/' := fun heq => h.slash_not_mem (heq ▸ List.mem_cons_self)
    unfold Path.rootOf
    split <;> simp_all

lemma ofText_eq : Path.ofText name = ⟨.relative, [name]⟩ := by
  rw [Path.ofText, h.rootOf_eq, h.splitSlashes_eq]
  simp [h.ne_nil, h.ne_dot]

lemma parent_within (directory : Path) :
    (directory.within (Path.ofText name)).parent = directory := by
  rw [h.ofText_eq]
  simp [Path.within, Path.isAbsolute, Path.parent]

lemma readIncludeName_eq :
    Expansion.readIncludeName (includeSite name).after = .ok (name, []) := by
  have hquote : ∀ c ∈ name, decide (c ≠ '"') = true := by
    intro c hc
    exact decide_eq_true fun heq => h.quote_not_mem (heq ▸ hc)
  have hdrop : (name ++ ['"']).dropWhile (· ≠ '"') = ['"'] := by
    rw [List.dropWhile_append_of_pos hquote, List.dropWhile_cons_of_neg (by decide)]
  have htake : (name ++ ['"']).takeWhile (· ≠ '"') = name := by
    rw [List.takeWhile_append_of_pos hquote, List.takeWhile_cons_of_neg (by decide),
      List.append_nil]
  have htrim : Text.trimLeft (includeSite name).after = '"' :: (name ++ ['"']) := rfl
  simp only [Expansion.readIncludeName, htrim, hdrop, htake, if_neg h.ne_nil]

end IsPlainName

namespace Expansion

variable {settings : Settings} {deep : Frame → Text → Expansion Text} {frame : Frame}
  {bs bs' : List (Nat × Block)} {chunks : List Text} {s s' : MacroTable}

lemma yields_expandLine_nil {inner : Text → Expansion Text} {out : Text} :
    Yields (expandLine inner []) s out s' ↔ out = [] ∧ s = s' := by
  have hnone (p : Text → Bool) : Scan.findInCode? p [] = none := rfl
  simp only [expandLine, yields_bind, yields_get, hnone, yields_pure]
  constructor
  · rintro ⟨_, _, ⟨rfl, rfl⟩, rfl, rfl⟩
    exact ⟨rfl, rfl⟩
  · rintro ⟨rfl, rfl⟩
    exact ⟨s, s, ⟨rfl, rfl⟩, rfl, rfl⟩

/-! ### The file -/

variable {source path : Path} {name content text : Text}

lemma yields_locate (hname : IsPlainName name)
    (hcontains : settings.files.contains (source.parent.within (Path.ofText name)))
    (h : Yields (locate settings (some source) (Path.ofText name)) s path s') :
    path = source.parent.within (Path.ofText name) ∧ s = s' := by
  have hrelative : (Path.ofText name).isAbsolute = false := by
    rw [hname.ofText_eq]
    rfl
  have hcandidates : candidates settings (some source) (Path.ofText name) =
      source.parent.within (Path.ofText name) ::
        (settings.libs.map (·.within (Path.ofText name)) ++ [Path.ofText name]) := rfl
  simp [locate, hrelative, hcandidates, firstExisting?, hcontains] at h
  exact ⟨h.2.symm, h.1⟩

lemma contains_of_source (h : settings.files.source path settings.encoding = .ok content) :
    settings.files.contains path := by
  unfold Files.source at h
  rw [Files.contains]
  cases hnode : settings.files.node? path with
  | none =>
    rw [hnode] at h
    cases h
  | some node => rfl

lemma yields_includeFile {found : Text × Text} (hname : IsPlainName name)
    (hfile : frame.file = some source) (hpath : path = source.parent.within (Path.ofText name))
    (hcontent : settings.files.source path settings.encoding = .ok content)
    (h : Yields (includeFile settings deep frame (includeSite name).after) s found s') :
    found.2 = [] ∧
    Yields (deep ⟨some path, settings.files.absolute path :: frame.active⟩ content) s found.1
      s' := by
  rw [includeFile, hname.readIncludeName_eq, hfile, yields_bind] at h
  obtain ⟨_, s₁, hlift, h⟩ := h
  obtain ⟨⟨⟩, rfl⟩ := yields_lift.mp hlift
  obtain ⟨path', s₂, hlocate, h⟩ := yields_bind.mp h
  obtain ⟨rfl, rfl⟩ := yields_locate hname (hpath ▸ contains_of_source hcontent) hlocate
  rw [← hpath] at h
  dsimp only at h
  split at h
  · exact absurd h yields_throw
  · obtain ⟨content', s₃, hread, h⟩ := yields_bind.mp h
    obtain ⟨hsource, rfl⟩ := yields_readSource.mp hread
    obtain rfl : content = content' := Except.ok.inj (hcontent.symm.trans hsource)
    simp only [yields_bind, yields_mapError, yields_log, yields_pure] at h
    obtain ⟨processed, s₄, hdeep, -, _, rfl, rfl, rfl⟩ := h
    exact ⟨rfl, hdeep⟩

/-- A line that includes a file expands to what the file expands to, one level further down. -/
lemma yields_includeLine {line : Nat} {chunk : Text} (hname : IsPlainName name)
    (hfile : frame.file = some source) (hpath : path = source.parent.within (Path.ofText name))
    (hcontent : settings.files.source path settings.encoding = .ok content)
    (h : Yields (processBlock settings deep frame line
      (.directive (some .includeFile) (includeSite name))) s chunk s') :
    Yields (deep ⟨some path, settings.files.absolute path :: frame.active⟩ content) s chunk s' := by
  simp only [processBlock, resolve, yields_bind, yields_log, yields_pure] at h
  obtain ⟨_, _, hbefore, -, _, rfl, _, _, ⟨found, s₁, hfound, suffix, _, hsuffix, rfl, rfl⟩,
    rfl, rfl⟩ := h
  obtain ⟨rfl, rfl⟩ := yields_expandLine_nil.mp hbefore
  obtain ⟨hnil, hdeep⟩ := yields_includeFile hname hfile hpath hcontent hfound
  rw [hnil] at hsuffix
  obtain ⟨rfl, rfl⟩ := yields_expandLine_nil.mp hsuffix
  rw [List.nil_append, List.append_nil]
  exact hdeep

/-! ### The splice -/

variable {before after : List Text}

lemma ofText_splice (hbefore : ∀ p ∈ Block.ofLinesFrom 1 0 before, p.2.Closed)
    (hcontent : ∀ p ∈ Block.ofText content, p.2.Closed)
    {line : Text} (hlines : text.lines = before ++ line :: after) :
    Block.ofText (Text.joinLines (before ++ (content.lines ++ after))) =
      Block.ofLinesFrom 1 0 before ++ (Block.ofLinesFrom (1 + before.length) 0 content.lines ++
        Block.ofLinesFrom (1 + before.length + content.lines.length) 0 after) := by
  have hne : before ++ (content.lines ++ after) ≠ [] := by simp [Text.lines_ne_nil]
  have hall : ∀ l ∈ before ++ (content.lines ++ after), '\n' ∉ l := by
    have htext (l : Text) (h : l ∈ before ++ line :: after) : '\n' ∉ l :=
      Text.newline_not_mem_of_mem_lines (hlines ▸ h)
    simp only [List.mem_append, List.mem_cons] at htext ⊢
    rintro l (h | h | h)
    · exact htext l (Or.inl h)
    · exact Text.newline_not_mem_of_mem_lines h
    · exact htext l (Or.inr (Or.inr h))
  rw [Block.ofText, Text.lines_joinLines hne hall,
    Block.ofLinesFrom_append (Nat.zero_le _) hbefore,
    Block.ofLinesFrom_append (Nat.zero_le _) (Block.closed_renumber hcontent _)]

/-- The frame of a file that the source includes. -/
def includedFrame (settings : Settings) (path : Path) : Frame :=
  ⟨some path, settings.files.absolute path :: settings.outermost.active⟩

lemma includedFrame_widens (hsource : settings.source = some source) (hname : IsPlainName name) :
    (includedFrame settings (source.parent.within (Path.ofText name))).Widens
      settings.outermost := by
  refine ⟨?_, List.subset_cons_self _ _⟩
  rw [includedFrame, Option.map_some, hname.parent_within, Settings.outermost, hsource]
  rfl

/-- Where a text with the line is expanded, what is before the line, the file, and what is after the
line are expanded in turn. -/
lemma yields_expand_include {out : Text} (hsource : settings.source = some source)
    (hname : IsPlainName name) (hpath : path = source.parent.within (Path.ofText name))
    (hcontent : settings.files.source path settings.encoding = .ok content)
    (hlines : text.lines = before ++ includeLine name :: after)
    (hbegins : ∃ b, (1 + before.length, b) ∈ Block.ofText text)
    (h : Yields (expand settings text) s out s') :
    ∃ levels first middle last s₁ s₂, settings.levels = levels + 1 + 1 ∧
      Yields (processBlocks settings (processText settings (levels + 1)) settings.outermost
        (Block.ofLinesFrom 1 0 before)) s first s₁ ∧
      Yields (processBlocks settings (processText settings levels) (includedFrame settings path)
        (Block.ofText content)) s₁ middle s₂ ∧
      Yields (processBlocks settings (processText settings (levels + 1)) settings.outermost
        (Block.ofLinesFrom (1 + before.length + 1) 0 after)) s₂ last s' ∧
      out = Text.joinLines (first ++ Text.joinLines middle :: last) := by
  obtain ⟨levels, chunks, hlevels, hchunks, rfl⟩ := yields_processText h
  have hclosed := closed_of_yields hchunks
  rw [Block.ofText, hlines] at hchunks hclosed hbegins
  -- no definition in front goes on over the line, so that it is a block by itself
  obtain ⟨-, hbefore⟩ := Block.closed_of_begins hclosed hbegins
  rw [Block.ofLinesFrom_append (Nat.zero_le _) hbefore] at hchunks
  obtain ⟨first, s₁, _, hfirst, hsecond, rfl⟩ := yields_processBlocks_append.mp hchunks
  rw [Block.ofLinesFrom, ofLine_includeLine] at hsecond
  obtain ⟨chunk, s₂, last, hchunk, hlast, rfl⟩ := yields_processBlocks_cons.mp hsecond
  have hfile := yields_includeLine hname hsource hpath hcontent hchunk
  obtain ⟨levels, middle, rfl, hmiddle, rfl⟩ := yields_processText hfile
  exact ⟨levels, first, middle, last, s₁, s₂, hlevels, hfirst, hmiddle, hlast, rfl⟩

/-- The lines of the file expand in their new place as they did in the file. -/
theorem expand_agrees_splice (hsource : settings.source = some source) (hname : IsPlainName name)
    (hcontent : settings.files.source (source.parent.within (Path.ofText name)) settings.encoding =
      .ok content)
    (hlines : text.lines = before ++ includeLine name :: after)
    (hbegins : ∃ b, (1 + before.length, b) ∈ Block.ofText text) :
    Agrees (expand settings text)
      (expand settings (Text.joinLines (before ++ (content.lines ++ after)))) := by
  intro s t out s' hsame h
  obtain ⟨levels, first, middle, last, s₁, s₂, hlevels, hfirst, hmiddle, hlast, rfl⟩ :=
    yields_expand_include hsource hname rfl hcontent hlines hbegins h
  have hwhole : settings.outermost.Widens settings.outermost := ⟨rfl, List.Subset.refl _⟩
  have hpart := includedFrame_widens hsource hname
  obtain ⟨_, t₁, hfirst', rfl, hsame₁⟩ :=
    processBlocks_agrees_of_le (Nat.le_refl _) hwhole rfl hsame hfirst
  -- the file has one level more than before
  obtain ⟨_, t₂, hmiddle', rfl, hsame₂⟩ := processBlocks_agrees_of_le (Nat.le_succ _) hpart
    (Block.map_snd_ofLinesFrom _ (1 + before.length) _ _) hsame₁ hmiddle
  obtain ⟨_, t₃, hlast', rfl, hsame₃⟩ := processBlocks_agrees_of_le (Nat.le_refl _) hwhole
    (Block.map_snd_ofLinesFrom _ (1 + before.length + content.lines.length) _ _) hsame₂ hlast
  have hblocks := ofText_splice (closed_of_yields hfirst) (closed_of_yields hmiddle) hlines
  have hne : middle ≠ [] := ne_nil_of_yields hmiddle (Block.ofText_ne_nil content)
  refine ⟨Text.joinLines (first ++ (middle ++ last)), t₃, ?_, Text.joinLines_splice hne _ _, hsame₃⟩
  rw [expand, hlevels, processText, hblocks, yields_bind]
  refine ⟨first ++ (middle ++ last), t₃, ?_, yields_pure.mpr ⟨rfl, rfl⟩⟩
  refine yields_processBlocks_append.mpr ⟨first, t₁, middle ++ last, hfirst', ?_, rfl⟩
  exact yields_processBlocks_append.mpr ⟨middle, t₂, last, hmiddle', hlast', rfl⟩

end Expansion

/-! ### Symbols -/

section

variable {σ τ : Type} (S : σ → τ → Prop)

lemma UnitLine.readAll_follows (above : SymbolTable) (lines : List Text) :
    Follows S Eq (UnitLine.readAll above lines) (UnitLine.readAll above lines) := by
  induction lines generalizing above with
  | nil => exact Follows.pure rfl
  | cons line lines ih =>
    rw [UnitLine.readAll, UnitLine.readAll]
    split
    · refine (ih _).bind_eq fun rest => ?_
      exact Follows.pure rfl
    · refine (Follows.ofExcept fun d hd => ⟨d, hd, rfl⟩).bind_eq fun ⟨symbol, raw⟩ => ?_
      refine Follows.log_bind ?_ _ _
      refine (ih _).bind_eq fun rest => ?_
      exact Follows.pure rfl

/-- The symbols of a unit depend on nothing but the unit. -/
lemma replaceSymbols_follows (unit : Text) :
    Follows S Eq (replaceSymbols unit) (replaceSymbols unit) := by
  rw [replaceSymbols]
  refine (UnitLine.readAll_follows S _ _).bind_eq fun lines => ?_
  split
  · exact Follows.pure rfl
  · exact Follows.pure rfl

end

namespace Session

variable {settings : Settings} {text text' : Text}

/-- Sessions that know the same macros. -/
def SameMacros (s s' : Session) : Prop := s.macros.Same s'.macros

lemma process_follows
    (h : Expansion.Agrees (Expansion.expand settings text) (Expansion.expand settings text')) :
    Follows SameMacros Eq (process settings text) (process settings text') := by
  have hmacros : Follows SameMacros Eq (onMacros (Expansion.expand settings text))
      (onMacros (Expansion.expand settings text')) :=
    h.focus (fun _ _ hsame => hsame) (fun _ _ _ _ _ hsame => hsame)
  refine hmacros.bind_eq fun unit => ?_
  refine (replaceSymbols_follows _ unit).bind_eq fun p => ?_
  split
  · exact Follows.pure rfl
  · next out symbols =>
    refine Follows.bind_eq (Follows.modify ?_) fun _ => Follows.pure rfl
    exact fun _ _ hsame => hsame

/-- Where a line of the source includes a file of its directory, outside of macro definitions, the
lines of the file might as well stand there: the program is the same, and so are the macros. -/
theorem process_include {source : Path} {name content out : Text} {before after : List Text}
    (s s' : Session) (hsource : settings.source = some source) (hname : IsPlainName name)
    (hcontent : settings.files.source (source.parent.within (Path.ofText name)) settings.encoding =
      .ok content)
    (hlines : text.lines = before ++ includeLine name :: after)
    (hbegins : ∃ b, (1 + before.length, b) ∈ Block.ofText text) (hmacros : s'.macros = s.macros)
    (hout : ((process settings text).run s).result = .ok out) :
    ((process settings (Text.joinLines (before ++ (content.lines ++ after)))).run s').result =
      .ok out ∧
    ((process settings text).run s).state.macros.map Macro.definition =
      ((process settings (Text.joinLines (before ++ (content.lines ++ after)))).run
        s').state.macros.map Macro.definition := by
  have hfollows := process_follows
    (Expansion.expand_agrees_splice hsource hname hcontent hlines hbegins)
  have hsame : SameMacros s s' := congrArg _ hmacros.symm
  obtain ⟨_, t, ⟨hresult, rfl⟩, rfl, hsame'⟩ := hfollows hsame (yields_of_ok hout)
  exact ⟨hresult, hsame'⟩

/-- A source beside a file that defines a macro. -/
def besideMacro : Settings :=
  let tree : FileTree := ⟨[], [([['x']], .file ".macro f\nnop\n.end_macro".toUTF8.toList)]⟩
  { files := tree.files, source := some (Path.ofText ['s']) }

theorem process_include_macro :
    ((process besideMacro "f\n.macro f\nnop\n.end_macro\nf".toList).run {}).result =
      .ok "f\n\n\n\nnop".toList ∧
    ((process besideMacro "f\n.include \"x\"\nf".toList).run {}).state.macros.map
        Macro.definition =
      ((process besideMacro "f\n.macro f\nnop\n.end_macro\nf".toList).run {}).state.macros.map
        Macro.definition := by
  have hname : IsPlainName ['x'] := ⟨by decide, by decide, by decide, by decide⟩
  have hsource : besideMacro.source = some (Path.ofText ['s']) := rfl
  have hcontent : besideMacro.files.source
      ((Path.ofText ['s']).parent.within (Path.ofText ['x'])) besideMacro.encoding =
        .ok ".macro f\nnop\n.end_macro".toList := by
    decide +kernel
  have hlines : Text.lines "f\n.include \"x\"\nf".toList =
      ([['f']] : List Text) ++ includeLine ['x'] :: [['f']] := by
    decide +kernel
  have hbegins : (1 + List.length ([['f']] : List Text),
      Block.directive (some .includeFile) (includeSite ['x'])) ∈
        Block.ofText "f\n.include \"x\"\nf".toList := by
    decide +kernel
  have hout : ((process besideMacro "f\n.include \"x\"\nf".toList).run {}).result =
      .ok "f\n\n\n\nnop".toList := by
    decide +kernel
  have hsplice : Text.joinLines (([['f']] : List Text) ++
      (Text.lines ".macro f\nnop\n.end_macro".toList ++ ([['f']] : List Text))) =
        "f\n.macro f\nnop\n.end_macro\nf".toList := by
    decide +kernel
  have h := process_include {} {} hsource hname hcontent hlines ⟨_, hbegins⟩ rfl hout
  rwa [hsplice] at h

end Session

end MipsAsm
