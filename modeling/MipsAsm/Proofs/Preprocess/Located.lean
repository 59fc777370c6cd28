import MipsAsm.Preprocess.Session
import MipsAsm.Proofs.Preprocess.Failure

/-!
# Where a failure is located

A run that fails has come, by way of other texts, to a text that fails on a line of its own
(`Expansion.fails_processText`). The failure is located on this line, in the file that was included
last: on which lines the texts on the way ask for the next one makes no difference.
-/

namespace MipsAsm

open Run

namespace Expansion

/-! ### Ways -/

/-- How a text leads to another one: the line and the request of each text on the way. -/
abbrev Way := List (Nat × Request)

namespace Way

/-- Each text on the way includes the next one. -/
def OfFiles (way : Way) : Prop := ∀ p ∈ way, ∃ path, p.2 = .file path

/-- Each text on the way has a macro call that expands to the next one. -/
def OfCalls (way : Way) : Prop := ∀ p ∈ way, ∃ t, p.2 = .call t

/-- The file that is included last. -/
def lastFile? : Way → Option Path
  | []                     => none
  | (_, .call _) :: way    => lastFile? way
  | (_, .file path) :: way => some ((lastFile? way).getD path)

/-- The place of a line of the text at the end. -/
def place (way : Way) (line : Nat) : Location :=
  match way.lastFile? with
  | none      => .line line
  | some path => .inFile path.fileName line

variable {way files calls : Way} {line line' : Nat} {f : Fault}

lemma seen_place (r : Request) (f : Fault) (way : Way) (line line' : Nat) :
    r.seen ⟨f, way.place line'⟩ = ⟨f, Way.place ((line, r) :: way) line'⟩ := by
  cases r with
  | call t => rfl
  | file path =>
    -- a file that is included further on keeps the place it has given
    rw [place, place, lastFile?]
    cases way.lastFile? <;> rfl

lemma atLine_place : Diagnostic.atLine ⟨f, way.place line'⟩ line = ⟨f, way.place line'⟩ := by
  rw [place]
  cases way.lastFile? <;> rfl

lemma place_inj : way.place line = way.place line' ↔ line = line' := by
  rw [place, place]
  cases way.lastFile? <;> simp

lemma OfFiles.lastFile? (h : way.OfFiles) (hne : way ≠ []) : ∃ path, way.lastFile? = some path := by
  obtain ⟨⟨line, r⟩, way, rfl⟩ := List.exists_cons_of_ne_nil hne
  obtain ⟨path, rfl⟩ := h _ List.mem_cons_self
  exact ⟨_, rfl⟩

lemma OfCalls.lastFile? (h : calls.OfCalls) : calls.lastFile? = none := by
  induction calls with
  | nil => rfl
  | cons p calls ih =>
    obtain ⟨hp, hcalls⟩ := List.forall_mem_cons.mp h
    obtain ⟨line, r⟩ := p
    obtain ⟨t, rfl⟩ := hp
    exact ih hcalls

/-- Macro calls at the end of a way make no difference to the file. -/
lemma OfCalls.place_append (h : calls.OfCalls) (way : Way) (line : Nat) :
    place (way ++ calls) line = way.place line := by
  have hlast : Way.lastFile? (way ++ calls) = way.lastFile? := by
    induction way with
    | nil => exact h.lastFile?
    | cons p way ih =>
      obtain ⟨line, t | path⟩ := p
      · exact ih
      · rw [List.cons_append, Way.lastFile?, ih]
        rfl
  rw [place, place, hlast]

end Way

variable {settings : Settings} {levels levels' line : Nat} {v w : Visit} {way way' : Way}
  {f : Fault} {p : Diagnostic → Prop}

/-- The processing of a text comes to the block on a line, with other macros known. There is a
number of levels left for what the text asks for. -/
def Visit.ComesTo (settings : Settings) (levels : Nat) (v : Visit) (line : Nat) (b : Block)
    (s : MacroTable) : Prop :=
  Arrives settings (processText settings levels) v.frame v.macros (Block.ofText v.text) line b s

/-- The processing of a text fails on a line, with a fault of its own: a part of a block is refused,
or there are no levels left for what it asks for. -/
inductive Visit.Raises (settings : Settings) (v : Visit) : (levels line : Nat) → Fault → Prop where
  | refused {levels line : Nat} {b : Block} {s : MacroTable} {f : Fault}
      (hcomes : v.ComesTo settings levels line b s)
      (h : BlockRefuses settings (processText settings levels) v.frame line s b f) :
      Raises settings v (levels + 1) line f
  | tooDeep {line : Nat} {b : Block} {s m : MacroTable} {r : Request} {w : Visit}
      (hcomes : v.ComesTo settings 0 line b s)
      (hasks : BlockAsks settings (processText settings 0) v.frame line s b r m)
      (hw : r.visit? settings v.frame m = some w) :
      Raises settings v 1 line (.tooDeep settings.maxDepth)

/-- The processing of a text comes to another one in a way, with fewer levels left. -/
inductive Leads (settings : Settings) :
    (levels : Nat) → Visit → Way → (levels' : Nat) → Visit → Prop where
  | self {levels : Nat} {v : Visit} : Leads settings levels v [] levels v
  | step {levels levels' line : Nat} {v u w : Visit} {b : Block} {s m : MacroTable} {r : Request}
      {way : Way} (hcomes : v.ComesTo settings levels line b s)
      (hasks : BlockAsks settings (processText settings levels) v.frame line s b r m)
      (hu : r.visit? settings v.frame m = some u) (h : Leads settings levels u way levels' w) :
      Leads settings (levels + 1) v ((line, r) :: way) levels' w

/-! ### The text that fails -/

lemma Visit.ComesTo.mem {b : Block} {s : MacroTable} (h : v.ComesTo settings levels line b s) :
    (line, b) ∈ Block.ofText v.text := Arrives.mem h

lemma Visit.comesTo_of_blocks {b : Block} {bs : List (Nat × Block)} {s : MacroTable}
    (hbs : Block.ofText v.text = bs)
    (h : Arrives settings (processText settings levels) v.frame v.macros bs line b s) :
    v.ComesTo settings levels line b s := by
  rwa [ComesTo, hbs]

lemma Visit.Raises.mem (h : v.Raises settings levels line f) :
    ∃ b, (line, b) ∈ Block.ofText v.text := by
  cases h with
  | refused hcomes h => exact ⟨_, hcomes.mem⟩
  | tooDeep hcomes hasks hw => exact ⟨_, hcomes.mem⟩

/-- A text is not processed if there are no levels for it, and else it fails as a text to which it
leads, which fails on a line of its own. -/
theorem fails_processText :
    Fails (processText settings levels v.frame v.text) v.macros p ↔
      (levels = 0 ∧ p { fault := .tooDeep settings.maxDepth }) ∨
      ∃ way levels' w line f, Leads settings levels v way levels' w ∧
        w.Raises settings levels' line f ∧ p ⟨f, way.place line⟩ := by
  induction levels generalizing v p with
  | zero =>
    rw [processText, fail, fails_throw, and_iff_right rfl]
    -- without levels a text leads to itself only, and it has no line to fail on
    refine (or_iff_left ?_).symm
    rintro ⟨way, levels', w, line, f, hleads, hraises, -⟩
    cases hleads
    cases hraises
  | succ levels ih =>
    rw [processText, fails_bind_pure, fails_processBlocks]
    refine Iff.trans ?_ (or_iff_right fun h => absurd h.1 (Nat.succ_ne_zero _)).symm
    simp only [fails_processBlock, BlockFails, ih]
    constructor
    · rintro ⟨line, b, s, hcomes, ⟨f, hrefuses, hp⟩ | ⟨r, m, u, hasks, hu, ⟨rfl, hp⟩ | h⟩⟩
      · -- a part of the block is refused
        exact ⟨[], _, v, line, f, .self, .refused hcomes hrefuses, hp⟩
      · -- what the block asks for would be one level too deep
        refine ⟨[], _, v, line, _, .self, .tooDeep hcomes hasks hu, ?_⟩
        cases r <;> exact hp
      · -- what the block asks for fails as a text further on, whose place the block does not change
        obtain ⟨way, levels', w, line', f, hleads, hraises, hp⟩ := h
        rw [Way.seen_place r f way line, Way.atLine_place] at hp
        exact ⟨_, levels', w, line', f, .step hcomes hasks hu hleads, hraises, hp⟩
    · rintro ⟨way, levels', w, line', f, hleads, hraises, hp⟩
      cases hleads with
      | self =>
        cases hraises with
        | refused hcomes hrefuses => exact ⟨line', _, _, hcomes, .inl ⟨f, hrefuses, hp⟩⟩
        | @tooDeep _ _ _ _ r _ hcomes hasks hu =>
          refine ⟨line', _, _, hcomes, .inr ⟨r, _, _, hasks, hu, .inl ⟨rfl, ?_⟩⟩⟩
          cases r <;> exact hp
      | @step _ _ line _ _ _ _ _ _ r way hcomes hasks hu hleads =>
        refine ⟨line, _, _, hcomes, .inr ⟨r, _, _, hasks, hu, .inr ?_⟩⟩
        refine ⟨way, levels', w, line', f, hleads, hraises, ?_⟩
        rwa [Way.seen_place r f way line, Way.atLine_place]

lemma fails_expand {text : Text} {s : MacroTable} :
    Fails (expand settings text) s p ↔
      (settings.levels = 0 ∧ p { fault := .tooDeep settings.maxDepth }) ∨
      ∃ way levels w line f,
        Leads settings settings.levels ⟨settings.outermost, text, s⟩ way levels w ∧
        w.Raises settings levels line f ∧ p ⟨f, way.place line⟩ :=
  fails_processText (v := ⟨settings.outermost, text, s⟩)

/-! ### The way to it -/

lemma Leads.eq_of_nil (h : Leads settings levels v [] levels' w) : w = v := by
  cases h
  rfl

lemma leads_append : Leads settings levels v (way ++ way') levels' w ↔
    ∃ n u, Leads settings levels v way n u ∧ Leads settings n u way' levels' w := by
  constructor
  · intro h
    induction way generalizing levels v with
    | nil => exact ⟨levels, v, .self, h⟩
    | cons q way ih =>
      cases h with
      | step hcomes hasks hu h =>
        obtain ⟨n, u, hleads, hleads'⟩ := ih h
        exact ⟨n, u, .step hcomes hasks hu hleads, hleads'⟩
  · rintro ⟨n, u, hleads, hleads'⟩
    induction hleads with
    | self => exact hleads'
    | step hcomes hasks hu _ ih => exact .step hcomes hasks hu (ih hleads')

/-- The text at the end stands in the file that is included last. -/
lemma Leads.file (h : Leads settings levels v way levels' w) :
    w.frame.file = way.lastFile?.or v.frame.file := by
  induction h with
  | self => rfl
  | @step _ _ line _ _ _ _ _ _ r way _ _ hu _ ih =>
    -- an expansion stands in the file of its call, and only an inclusion changes the file
    rw [ih]
    cases r with
    | call t =>
      cases hu
      rfl
    | file path =>
      obtain ⟨-, content, -, rfl⟩ := Request.visit?_file.mp hu
      rw [Way.lastFile?]
      cases way.lastFile? <;> rfl

lemma Leads.frame_of_calls (h : Leads settings levels v way levels' w) (hcalls : way.OfCalls) :
    w.frame = v.frame := by
  induction h with
  | self => rfl
  | step _ _ hu _ ih =>
    obtain ⟨⟨t, rfl⟩, hrest⟩ := List.forall_mem_cons.mp hcalls
    cases hu
    exact ih hrest

/-- The text at the end is what the last macro call expands to. -/
lemma Leads.text_of_call {t : Text} (h : Leads settings levels v way levels' w)
    (hlast : way.getLast? = some (line, .call t)) : w.text = t := by
  obtain ⟨init, rfl⟩ := List.getLast?_eq_some_iff.mp hlast
  obtain ⟨n, u, -, h⟩ := leads_append.mp h
  cases h with
  | step _ _ hu h =>
    cases hu
    cases h
    rfl

/-- How a line of a text is named, to which a way of included files leads. -/
inductive Visit.Names (w : Visit) (line : Nat) : Way → String → Prop where
  | source : Names w line [] (toString line)
  | included {p : Nat × Request} {way : Way} {path : Path} (hfile : w.frame.file = some path) :
      Names w line (p :: way) s!"{path.fileName.str}:{line}"

lemma Leads.names (h : Leads settings levels v way levels' w) (hfiles : way.OfFiles) (line : Nat) :
    w.Names line way (way.place line).text := by
  cases way with
  | nil => exact .source
  | cons p way =>
    obtain ⟨path, hpath⟩ := hfiles.lastFile? (List.cons_ne_nil p way)
    have hfile : w.frame.file = some path := by
      rw [h.file, hpath, Option.some_or]
    rw [Way.place, hpath]
    exact .included hfile

/-- The processing of a text comes to an `.include` on a line, with other macros known and the rest
of the line behind it. -/
def Visit.ComesToInclude (settings : Settings) (levels : Nat) (v : Visit) (line : Nat)
    (m : MacroTable) (rest : Text) : Prop :=
  ∃ site before s, v.ComesTo settings levels line (.directive (some .includeFile) site) s ∧
    Yields (expandLine (processText settings levels v.frame) site.before) s before m ∧
    rest = site.after

end Expansion

namespace Session

open Expansion

variable {settings : Settings} {text : Text} {s : Session} {way files calls : Way} {w : Visit}
  {line : Nat} {f : Fault}

/-- What a session processes first when it preprocesses a text. -/
abbrev firstVisit (settings : Settings) (text : Text) (s : Session) : Visit :=
  ⟨settings.outermost, text, s.macros⟩

/-- When a session preprocesses a text, it comes in a way to a text that fails on a line. -/
def RaisedAt (settings : Settings) (text : Text) (s : Session) (way : Way) (w : Visit) (line : Nat)
    (f : Fault) : Prop :=
  ∃ levels, Leads settings settings.levels (firstVisit settings text s) way levels w ∧
    w.Raises settings levels line f

/-- A failure is located on the line of the text that fails, in the file that was included last. -/
lemma RaisedAt.result (h : RaisedAt settings text s way w line f) :
    ((process settings text).run s).result = .error ⟨f, way.place line⟩ := by
  obtain ⟨levels, hleads, hraises⟩ := h
  have hfails : Fails (expand settings text) s.macros (· = ⟨f, way.place line⟩) :=
    fails_expand.mpr (.inr ⟨way, levels, w, line, f, hleads, hraises, rfl⟩)
  have hexpand : ((onMacros (expand settings text)).run s).result = .error ⟨f, way.place line⟩ :=
    result_eq_error.mpr hfails
  rw [process, result_bind, hexpand]

/-- Where texts may nest at all, every failure of the expansion is one of a text on a line. -/
lemma exists_raisedAt (hdepth : 0 ≤ settings.maxDepth) {d : Diagnostic}
    (h : ((onMacros (expand settings text)).run s).result = .error d) :
    ∃ way w line, RaisedAt settings text s way w line d.fault := by
  have hfails : Fails (expand settings text) s.macros (· = d) := result_eq_error.mp h
  rcases fails_expand.mp hfails with ⟨hzero, -⟩ | ⟨way, levels, w, line, f, hleads, hraises, rfl⟩
  · -- a limit that is not negative leaves a level for the text itself
    rw [Settings.levels] at hzero
    omega
  · exact ⟨way, w, line, levels, hleads, hraises⟩

/-- Each failure of the expansion is one of a text to which the processed text leads. If only
included files lead there, it names the line of this text, and the file if it is an included one. In
particular an inclusion that leads to no text, or to one that is nested too deep, fails on the line
of the `.include`. -/
theorem process_locates_inclusions (settings : Settings) (hdepth : 0 ≤ settings.maxDepth)
    (text : Text) (s : Session) :
    (∀ d, ((onMacros (expand settings text)).run s).result = .error d →
      ∃ way w line, RaisedAt settings text s way w line d.fault) ∧
    (∀ (way : Way) w line f, way.OfFiles → RaisedAt settings text s way w line f →
      (way = [] → w.text = text) ∧ (∃ b, (line, b) ∈ Block.ofText w.text) ∧
      ((process settings text).run s).result = .error ⟨f, way.place line⟩ ∧
      w.Names line way (way.place line).text) ∧
    ∀ way levels w line m rest,
      Leads settings settings.levels (firstVisit settings text s) way (levels + 1) w →
      w.ComesToInclude settings levels line m rest →
        (∀ f, FileRefused settings w.frame m rest f → RaisedAt settings text s way w line f) ∧
        ∀ path u, levels = 0 → NamesFile settings w.frame.file m rest path →
          (Request.file path).visit? settings w.frame m = some u →
            RaisedAt settings text s way w line (.tooDeep settings.maxDepth) := by
  refine ⟨fun d hd => exists_raisedAt hdepth hd, fun way w line f hfiles h => ?_,
    fun way levels w line m rest hleads hincludes => ?_⟩
  · have hresult := h.result
    obtain ⟨levels, hleads, hraises⟩ := h
    refine ⟨?_, hraises.mem, hresult, hleads.names hfiles line⟩
    rintro rfl
    exact congrArg Visit.text hleads.eq_of_nil
  · obtain ⟨site, before, s₁, hcomes, hbefore, rfl⟩ := hincludes
    refine ⟨fun f hf => ⟨_, hleads, .refused hcomes (.file hbefore hf)⟩, ?_⟩
    rintro path u rfl hpath hu
    exact ⟨_, hleads, .tooDeep hcomes (.file hbefore hpath) hu⟩

/-- A file that includes itself, below an empty line. -/
def includesItself : Settings :=
  let tree : FileTree := ⟨[], [([['a']], .file "\n.include a".toUTF8.toList)]⟩
  { files := tree.files }

theorem process_locates_inclusions_itself :
    let way : Way := [(1, .file (Path.ofText ['a']))]
    let w : Visit := ⟨⟨some (Path.ofText ['a']), [[['a']]]⟩, "\n.include a".toList, []⟩
    0 ≤ includesItself.maxDepth ∧ way.OfFiles ∧
    RaisedAt includesItself ".include a".toList {} way w 2 (.selfInclusion ['a']) ∧
    ((process includesItself ".include a".toList).run {}).result =
      .error ⟨.selfInclusion ['a'], .inFile ['a'] 2⟩ ∧ w.Names 2 way "a:2" := by
  intro way w
  have hdepth : 0 ≤ includesItself.maxDepth := by decide
  have hfiles : way.OfFiles := List.forall_mem_cons.mpr ⟨⟨_, rfl⟩, nofun⟩
  let site : Scan.WordSite := ⟨[], ".include".toList, " a".toList⟩
  have hfirst : Block.ofText ".include a".toList = [(1, .directive (some .includeFile) site)] := by
    decide +kernel
  have hsecond : Block.ofText w.text =
      [(1, .plain []), (2, .directive (some .includeFile) site)] := by
    decide +kernel
  have hempty (inner : Text → Expansion Text) : Yields (expandLine inner []) [] [] [] := ⟨rfl, rfl⟩
  have hname : readIncludeName site.after = .ok (['a'], []) := by decide +kernel
  have hlocate (file : Option Path) (h : file ∈ [none, some (Path.ofText ['a'])]) :
      Yields (locate includesItself file (Path.ofText ['a'])) [] (Path.ofText ['a']) [] := by
    constructor <;> revert file <;> decide +kernel
  have hleads : Leads includesItself includesItself.levels
      (firstVisit includesItself ".include a".toList {}) way (15 + 1) w := by
    refine .step (m := []) (u := w) (Visit.comesTo_of_blocks hfirst .here) (.file (hempty _) ?_)
      (by decide +kernel) .self
    exact ⟨['a'], [], hname, hlocate _ (by decide)⟩
  have hincludes : w.ComesToInclude includesItself 15 2 [] site.after := by
    refine ⟨site, [], [], Visit.comesTo_of_blocks hsecond ?_, hempty _, rfl⟩
    exact .later (hempty (processText includesItself 15 w.frame)) .here
  have hcycle : FileRefused includesItself w.frame [] site.after (.selfInclusion ['a']) :=
    .cyclic hname (hlocate _ (by decide)) (by decide +kernel)
  obtain ⟨-, hlocated, hin⟩ :=
    process_locates_inclusions includesItself hdepth ".include a".toList {}
  have hraised := (hin way 15 w 2 [] _ hleads hincludes).1 _ hcycle
  obtain ⟨-, -, hresult, hnames⟩ := hlocated way w 2 _ hfiles hraised
  exact ⟨hdepth, hfiles, hraised, hresult, hnames⟩

/-- Each failure of the expansion is one of a text to which the processed text leads. If included
files and then macro calls lead there, it names the file in which the outermost call stands. Its
line is one of the innermost expansion, and that on which the block with the call begins only if the
numbers are the same. -/
theorem process_locates_expansions (settings : Settings) (text : Text) (s : Session) :
    (∀ d, ((onMacros (expand settings text)).run s).result = .error d → 0 ≤ settings.maxDepth →
      ∃ way w line, RaisedAt settings text s way w line d.fault) ∧
    ∀ (files calls : Way) w line f, files.OfFiles → calls.OfCalls →
      RaisedAt settings text s (files ++ calls) w line f →
        ∃ levels u levels',
          Leads settings settings.levels (firstVisit settings text s) files levels u ∧
          Leads settings levels u calls levels' w ∧ w.frame = u.frame ∧
          (∃ b, (line, b) ∈ Block.ofText w.text) ∧
          (∀ l t, calls.getLast? = some (l, .call t) → w.text = t) ∧
          ((process settings text).run s).result = .error ⟨f, files.place line⟩ ∧
          u.Names line files (files.place line).text ∧
          ∀ l t, calls.head? = some (l, .call t) →
            (∃ b, (l, b) ∈ Block.ofText u.text) ∧
            (files.place line = files.place l ↔ line = l) := by
  refine ⟨fun d hd hdepth => exists_raisedAt hdepth hd,
    fun files calls w line f hfiles hcalls h => ?_⟩
  have hresult := h.result
  -- the calls name no file, so that the way up to the outermost call tells the place
  rw [hcalls.place_append] at hresult
  obtain ⟨levels', hleads, hraises⟩ := h
  obtain ⟨levels, u, hleads_u, hexpansions⟩ := leads_append.mp hleads
  refine ⟨levels, u, levels', hleads_u, hexpansions, hexpansions.frame_of_calls hcalls, hraises.mem,
    fun l t hlast => hexpansions.text_of_call hlast, hresult, hleads_u.names hfiles line,
    fun l t hhead => ⟨?_, Way.place_inj⟩⟩
  cases hexpansions with
  | self => cases hhead
  | step hcomes _ _ _ =>
    cases hhead
    exact ⟨_, hcomes.mem⟩

/-- A macro whose second line names no file. -/
def includesNothing : Macro := ⟨['m'], [], "nop\n.include".toList, 1⟩

/-- A file with the macro `includesNothing` and a call of it. -/
def callInFile : Settings :=
  let tree : FileTree := ⟨[],
    [(["inc.asm".toList], .file ".macro m\nnop\n.include\n.end_macro\nm".toUTF8.toList)]⟩
  { files := tree.files }

/-- The expansion of the call in `callInFile`. -/
def expansionInFile : Visit :=
  ⟨⟨some (Path.ofText "inc.asm".toList), [["inc.asm".toList]]⟩, includesNothing.body,
    [includesNothing]⟩

lemma raisedAt_expansionInFile :
    RaisedAt callInFile ".include inc.asm".toList {}
      ([(1, .file (Path.ofText "inc.asm".toList))] ++ [(5, .call includesNothing.body)])
      expansionInFile 2 .missingPath := by
  let u : Visit :=
    ⟨expansionInFile.frame, ".macro m\nnop\n.include\n.end_macro\nm".toList, []⟩
  have hblocks : Block.ofText ".include inc.asm".toList =
      [(1, .directive (some .includeFile) ⟨[], ".include".toList, " inc.asm".toList⟩)] := by
    decide +kernel
  have hblocks_u : Block.ofText u.text =
      [(1, .definition ⟨[], ".macro".toList, " m".toList⟩
        (some ⟨["nop".toList, ".include".toList], ⟨[], ".end_macro".toList, []⟩⟩)),
       (5, .plain ['m'])] := by
    decide +kernel
  have hblocks_w : Block.ofText expansionInFile.text =
      [(1, .plain "nop".toList),
       (2, .directive (some .includeFile) ⟨[], ".include".toList, []⟩)] := by
    decide +kernel
  have hempty (inner : Text → Expansion Text) (s : MacroTable) :
      Yields (expandLine inner []) s [] s := ⟨rfl, rfl⟩
  have hcall : LineCalls [includesNothing] ['m'] includesNothing.body :=
    ⟨⟨[], ['m'], []⟩, includesNothing, [], by decide +kernel, by decide +kernel, by decide +kernel,
      by decide +kernel⟩
  refine ⟨14 + 1, leads_append.mpr ⟨16, u, ?_, ?_⟩, ?_⟩
  · refine .step (m := []) (u := u) (Visit.comesTo_of_blocks hblocks .here) (.file (hempty _ _) ?_)
      (by decide +kernel) .self
    exact ⟨"inc.asm".toList, [], by decide +kernel, by decide +kernel, by decide +kernel⟩
  · refine .step (u := expansionInFile) (Visit.comesTo_of_blocks hblocks_u ?_) (.plain hcall) rfl
      .self
    exact .later (show Yields _ _ "\n\n\n".toList [includesNothing] from
      ⟨by decide +kernel, by decide +kernel⟩) .here
  · have hlater : expansionInFile.ComesTo callInFile 14 2
        (.directive (some .includeFile) ⟨[], ".include".toList, []⟩) [includesNothing] := by
      refine Visit.comesTo_of_blocks hblocks_w ?_
      exact .later (show Yields _ _ "nop".toList [includesNothing] from
        ⟨by decide +kernel, by decide +kernel⟩) .here
    exact .refused hlater (.file (hempty _ _) (.unnamed (by decide)))

theorem process_locates_expansions_inFile :
    let files : Way := [(1, .file (Path.ofText "inc.asm".toList))]
    let calls : Way := [(5, .call includesNothing.body)]
    files.OfFiles ∧ calls.OfCalls ∧
    RaisedAt callInFile ".include inc.asm".toList {} (files ++ calls) expansionInFile 2
      .missingPath ∧
    ((process callInFile ".include inc.asm".toList).run {}).result =
      .error ⟨.missingPath, .inFile "inc.asm".toList 2⟩ ∧
    expansionInFile.text = includesNothing.body := by
  intro files calls
  have hfiles : files.OfFiles := List.forall_mem_cons.mpr ⟨⟨_, rfl⟩, nofun⟩
  have hcalls : calls.OfCalls := List.forall_mem_cons.mpr ⟨⟨_, rfl⟩, nofun⟩
  obtain ⟨-, hlocated⟩ := process_locates_expansions callInFile ".include inc.asm".toList {}
  obtain ⟨_, _, _, -, -, -, -, htext, hresult, -⟩ :=
    hlocated files calls _ 2 _ hfiles hcalls raisedAt_expansionInFile
  exact ⟨hfiles, hcalls, raisedAt_expansionInFile, hresult, htext 5 _ rfl⟩

/-- The outermost call stands on the fifth line of its file, which is not the line that is named. -/
theorem process_notOnLineOfCall :
    RaisedAt callInFile ".include inc.asm".toList {}
      ([(1, .file (Path.ofText "inc.asm".toList))] ++ [(5, .call includesNothing.body)])
      expansionInFile 2 .missingPath ∧
    ∃ d, ((process callInFile ".include inc.asm".toList).run {}).result = .error d ∧
      d.fault = .missingPath ∧ d.location.text = "inc.asm:2" ∧ d.location.text ≠ "inc.asm:5" := by
  refine ⟨raisedAt_expansionInFile, ⟨.missingPath, .inFile "inc.asm".toList 2⟩, ?_, ?_⟩
  · decide +kernel
  · decide +kernel

end Session

end MipsAsm
