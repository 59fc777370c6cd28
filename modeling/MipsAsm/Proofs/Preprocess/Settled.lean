import MipsAsm.Proofs.Preprocess.Directive
import MipsAsm.Proofs.Preprocess.Placement

/-!
# Settled texts

An expansion resolves all directives but the definitions of symbols: on each line that it leaves,
the first directive, if there is one, is `.eqv` (`Expansion.settled_of_yields`). Not all text is
searched for directives, and texts from different places come together on a line;
`Expansion.Visit.Tidy` says of a text that nothing escapes the search in these ways.
-/

namespace MipsAsm

open Run

/-! ### Lines -/

/-- The first directive on a line, if there is one, defines a symbol. -/
def IsSettled (line : Text) : Prop :=
  ∀ site, findDirective? line = some site → Directive.ofWord? site.word = some .eqv

/-- Texts that can stand one behind the other: where the line goes on from one to the other, the
first leaves no literal open, and no word goes on. -/
def Meets (a b : Text) : Prop :=
  Scan.restOfLine b = [] ∨ Scan.State.code.after a = .comment ∨
    Scan.State.code.after a = .code ∧ (Scan.freshAfter true a ∨ Scan.atWordEnd b)

/-- Anything can stand behind what is in front of a word that was found. -/
lemma Scan.IsFirst.meets {p : Text → Bool} {site : WordSite} (h : IsFirst p .code true site)
    (t : Text) : Meets site.before t :=
  .inr (.inr ⟨h.code, .inl h.fresh⟩)

section

variable {a b l t : Text} {site : Scan.WordSite}

lemma isSettled_of_none (h : findDirective? l = none) : IsSettled l := by
  intro site hsite
  cases h.symm.trans hsite

lemma isSettled_nil : IsSettled [] := isSettled_of_none rfl

/-- What a directive on a line stands behind holds no other one. -/
lemma isFirst_of_findDirective? (h : findDirective? l = some site) :
    Scan.IsFirst spellsDirective .code true site := by
  rw [findDirective?_eq] at h
  exact Scan.isFirst_of_findFrom? (Scan.reading_code l) h

lemma findDirective?_before (h : findDirective? l = some site) :
    findDirective? site.before = none := by
  rw [findDirective?_eq]
  exact (isFirst_of_findDirective? h).before

/-- A search through a line in two parts. -/
lemma findDirective?_append
    (h : Scan.State.code.after a = .code → Scan.freshAfter true a ∨ Scan.atWordEnd b) :
    findDirective? (a ++ b) = ((findDirective? a).map (·.append b)).or
      ((Scan.findFrom? spellsDirective (Scan.State.code.after a) b).map (·.prepend a)) := by
  rw [findDirective?_eq, findDirective?_eq]
  exact Scan.findFrom?_append (Scan.reading_code a) h

/-- From its first directive on, a line has that directive at its start. -/
lemma findDirective?_from (h : findDirective? site.text = some site) :
    findDirective? (site.word ++ site.after) = some ⟨[], site.word, site.after⟩ := by
  obtain ⟨-, hcode, hfresh, -⟩ := isFirst_of_findDirective? h
  have hbefore := findDirective?_before h
  rw [Scan.WordSite.text, List.append_assoc, findDirective?_append fun _ => .inl hfresh, hbefore,
    hcode, ← findDirective?_eq_findFrom?, Option.map_none, Option.none_or] at h
  obtain ⟨found, hfound, hsame⟩ := Option.map_eq_some_iff.mp h
  obtain ⟨hnil, hword, hafter⟩ := Scan.WordSite.mk.inj hsame
  rw [List.append_right_eq_self] at hnil
  rw [hfound, ← hnil, ← hword, ← hafter]

/-- From its first directive on, a line with a definition is settled. -/
lemma isSettled_from (h : findDirective? site.text = some site)
    (hword : Directive.ofWord? site.word = some .eqv) : IsSettled (site.word ++ site.after) := by
  intro site' hsite
  rw [findDirective?_from h] at hsite
  cases hsite
  exact hword

/-- The first part of a settled line is settled. -/
lemma IsSettled.of_append (h : IsSettled (a ++ b))
    (hab : Scan.State.code.after a = .code → Scan.freshAfter true a ∨ Scan.atWordEnd b) :
    IsSettled a := by
  intro site hsite
  refine h (site.append b) ?_
  rw [findDirective?_append hab, hsite]
  rfl

lemma IsSettled.append (ha : IsSettled a) (hb : IsSettled b) (hab : Meets a b) (hline : '\n' ∉ b) :
    IsSettled (a ++ b) := by
  rcases hab with hnil | hcomment | ⟨hcode, hmeets⟩
  · -- nothing follows
    rw [Scan.restOfLine_eq_self hline] at hnil
    rwa [hnil, List.append_nil]
  · -- a comment goes on in `b`, where no directive is found
    intro site hsite
    rw [findDirective?_append (fun h => by rw [hcomment] at h; cases h), hcomment,
      Scan.findFrom?_comment hline, Option.map_none, Option.or_none] at hsite
    obtain ⟨site', hsite', rfl⟩ := Option.map_eq_some_iff.mp hsite
    exact ha site' hsite'
  · -- code goes on in `b`, and no word is joined
    intro site hsite
    rw [findDirective?_append fun _ => hmeets, hcode, ← findDirective?_eq_findFrom?,
      Option.or_eq_some_iff] at hsite
    rcases hsite with hsite | ⟨-, hsite⟩
    · obtain ⟨site', hsite', rfl⟩ := Option.map_eq_some_iff.mp hsite
      exact ha site' hsite'
    · obtain ⟨site', hsite', rfl⟩ := Option.map_eq_some_iff.mp hsite
      exact hb site' hsite'

end

/-! ### Texts -/

/-- All lines of the text are settled. -/
def Settled (t : Text) : Prop := ∀ line ∈ t.lines, IsSettled line

section

variable {a b l t u : Text}

lemma settled_iff_of_not_mem (hl : '\n' ∉ l) : Settled l ↔ IsSettled l := by
  rw [Settled, Text.lines_eq_singleton hl, List.forall_mem_singleton]

lemma settled_append_newline : Settled (t ++ '\n' :: u) ↔ Settled t ∧ Settled u := by
  rw [Settled, Text.lines_append_newline_append, List.forall_mem_append]
  rfl

lemma settled_nil : Settled [] := (settled_iff_of_not_mem (by simp)).mpr isSettled_nil

lemma settled_replicate (n : Nat) (h : Settled t) : Settled (List.replicate n '\n' ++ t) := by
  induction n with
  | zero => exact h
  | succ n ih => exact settled_append_newline (t := []).mpr ⟨settled_nil, ih⟩

lemma settled_joinLines {ls : List Text} (hne : ls ≠ []) (h : ∀ l ∈ ls, Settled l) :
    Settled (Text.joinLines ls) := by
  intro line hline
  rw [Text.lines_joinLines_eq_flatMap hne] at hline
  obtain ⟨l, hl, hmem⟩ := List.mem_flatMap.mp hline
  exact h l hl line hmem

/-- A text has one line, or a line after its last line feed. -/
lemma exists_lastLine (t : Text) : '\n' ∉ t ∨ ∃ u l, t = u ++ '\n' :: l ∧ '\n' ∉ l := by
  by_cases h : '\n' ∈ t
  · obtain ⟨u, l, heq, hu⟩ := List.eq_append_cons_of_mem (List.mem_reverse.mpr h)
    refine .inr ⟨l.reverse, u.reverse, ?_, by simpa using hu⟩
    have := congrArg List.reverse heq
    simpa using this
  · exact .inl h

lemma meets_newline : Meets (u ++ '\n' :: l) b ↔ Meets l b := by
  have hfresh : Scan.freshAfter true (u ++ '\n' :: l) = Scan.freshAfter true l := by
    rw [Scan.freshAfter_append]
    rfl
  rw [Meets, Meets, Scan.State.after_append, Scan.State.after_cons, Scan.State.next_newline, hfresh]

lemma Meets.first (h : Meets a (l ++ '\n' :: t)) (hl : '\n' ∉ l) : Meets a l := by
  rw [Meets, Scan.restOfLine_append (by simp) hl] at h
  rw [Meets, Scan.restOfLine_eq_self hl]
  exact h.imp_right (Or.imp_right (And.imp_right (Or.imp_right Scan.atWordEnd_of_append)))

/-- Settled texts that can stand one behind the other are settled together. -/
lemma Settled.append (ha : Settled a) (hb : Settled b) (hab : Meets a b) : Settled (a ++ b) := by
  -- only the last line of `a` and the first of `b` are joined
  have hline {a : Text} (hmem : '\n' ∉ a) (ha : Settled a) (hab : Meets a b) :
      Settled (a ++ b) := by
    rw [settled_iff_of_not_mem hmem] at ha
    by_cases h : '\n' ∈ b
    · obtain ⟨l, t, rfl, hl⟩ := List.eq_append_cons_of_mem h
      rw [settled_append_newline, settled_iff_of_not_mem hl] at hb
      rw [← List.append_assoc, settled_append_newline, settled_iff_of_not_mem (by simp [hmem, hl])]
      exact ⟨ha.append hb.1 (hab.first hl) hl, hb.2⟩
    · rw [settled_iff_of_not_mem h] at hb
      rw [settled_iff_of_not_mem (by simp [hmem, h])]
      exact ha.append hb hab h
  rcases exists_lastLine a with hmem | ⟨u, l, rfl, hmem⟩
  · exact hline hmem ha hab
  · rw [settled_append_newline] at ha
    rw [List.append_assoc, List.cons_append, settled_append_newline]
    exact ⟨ha.1, hline hmem ha.2 (meets_newline.mp hab)⟩

end

/-! ### Sites of directives -/

namespace Block

/-- The directive of a block is the first one on its line. -/
def Sited : Block → Prop
  | .plain line        => findDirective? line = none
  | .directive d site  => findDirective? site.text = some site ∧ d = Directive.ofWord? site.word
  | .definition site _ => findDirective? site.text = some site

lemma sited_ofLine (line : Text) (ls : List Text) : (ofLine line ls).Sited := by
  unfold ofLine
  split
  · next hnone => exact hnone
  · next site hsite =>
    have hfirst : findDirective? site.text = some site :=
      (congrArg findDirective? (Scan.text_of_findKeyword? hsite)).trans hsite
    split
    · exact hfirst
    · exact ⟨hfirst, rfl⟩

lemma sited_of_mem_ofText {t : Text} {p : Nat × Block} (h : p ∈ ofText t) : p.2.Sited := by
  obtain ⟨line, following, -, hb⟩ := eq_ofLine_of_mem_ofLinesFrom h
  rw [hb]
  exact sited_ofLine line following

end Block

namespace Expansion

/-! ### Tidy texts -/

/-- The part of a line in front of its first macro call, or else the whole line. -/
def beforeCall (macros : MacroTable) (line : Text) : Text :=
  ((Scan.findInCode? (fun w => (macros.find? w).isSome) line).map Scan.WordSite.before).getD line

section

variable (settings : Settings) (inner : Frame → Text → Expansion Text) (frame : Frame)

/-- Nothing escapes the search for directives while a block is processed from macros. What stands
behind the name of a file or behind the end of a macro, up to a macro call, holds no directive but
the definition of a symbol. What a macro call leaves in front of a directive can stand in front of
what the directive leaves, and an included file in front of what follows its name. -/
def BlockTidy (line : Nat) (s : MacroTable) : Block → Prop
  | .directive (some .includeFile) site =>
    ∀ before content rest suffix s₁ s₂ s₃,
      Yields (expandLine (inner frame) site.before) s before s₁ →
      Yields (includeFile settings inner frame site.after) s₁ (content, rest) s₂ →
      Yields (expandLine (inner frame) rest) s₂ suffix s₃ →
      IsSettled (beforeCall s₂ rest) ∧ Meets before content ∧ Meets (before ++ content) suffix
  | .directive (some .eqv) site         =>
    ∀ before s₁, Yields (expandLine (inner frame) site.before) s before s₁ →
      Meets before (site.word ++ site.after)
  | .definition site (some body)        =>
    ∀ before s₁ m, Yields (expandLine (inner frame) site.before) s before s₁ →
      readMacro line site.after (some body) = .ok (m, body) →
      IsSettled (beforeCall (s₁.insert m) body.stop.after)
  | _                                   => True

/-- Nothing escapes the search for directives while blocks are processed in order from macros. -/
def BlocksTidy : MacroTable → List (Nat × Block) → Prop
  | _, []              => True
  | s, (line, b) :: bs =>
    BlockTidy settings inner frame line s b ∧
    ∀ chunk s₁, Yields (processBlock settings inner frame line b) s chunk s₁ → BlocksTidy s₁ bs

end

/-- Nothing escapes the search for directives while a text is processed with a number of levels. -/
def Visit.Tidy (settings : Settings) : (levels : Nat) → Visit → Prop
  | 0,          _ => True
  | levels + 1, v =>
    BlocksTidy settings (processText settings levels) v.frame v.macros (Block.ofText v.text)

/-- What a request leads to is processed to a settled text, if it is processed to its end. -/
def Request.GivesSettled (settings : Settings) (inner : Frame → Text → Expansion Text)
    (frame : Frame) (r : Request) (m : MacroTable) : Prop :=
  ∀ w out m', r.visit? settings frame m = some w →
    Yields (inner w.frame w.text) w.macros out m' → Settled out

/-! ### Lines and files -/

variable {settings : Settings} {inner : Frame → Text → Expansion Text} {frame : Frame}
  {s s' : MacroTable} {line : Nat} {b : Block} {bs : List (Nat × Block)}

lemma isSettled_beforeCall {l : Text} (h : IsSettled l) (s : MacroTable) :
    IsSettled (beforeCall s l) := by
  rw [beforeCall]
  cases hsite : Scan.findInCode? (fun w => (s.find? w).isSome) l with
  | none => exact h
  | some site =>
    have htext := Scan.text_of_findInCode? hsite
    rw [← htext, Scan.WordSite.text, List.append_assoc] at h
    exact h.of_append fun _ => .inl (Scan.isFirst_of_findInCode? hsite).fresh

/-- What takes the place of a call can stand behind what is in front of the call. -/
lemma settled_expandLine {l out : Text} (h : Yields (expandLine (inner frame) l) s out s')
    (hl : IsSettled (beforeCall s l)) (hline : '\n' ∉ l)
    (hcalls : ∀ t, LineCalls s l t → (Request.call t).GivesSettled settings inner frame s) :
    Settled out := by
  rcases yields_expandLine h with ⟨hnone, rfl, -⟩ | ⟨site, t, expansion, hsite, ht, hinner, rfl⟩
  · rw [beforeCall, hnone] at hl
    exact (settled_iff_of_not_mem hline).mpr hl
  · rw [beforeCall, hsite] at hl
    have hbefore := Scan.not_mem_before hsite hline
    have hexpansion := hcalls t ht _ _ _ rfl hinner
    exact ((settled_iff_of_not_mem hbefore).mpr hl).append hexpansion
      ((Scan.isFirst_of_findInCode? hsite).meets expansion)

lemma settled_includeFile {rest content suffix : Text}
    (h : Yields (includeFile settings inner frame rest) s (content, suffix) s')
    (hfiles : ∀ path, NamesFile settings frame.file s rest path →
      (Request.file path).GivesSettled settings inner frame s) :
    Settled content := by
  obtain ⟨-, path, w, hnames, hvisit, hinner⟩ := visit_of_yields_includeFile h
  exact hfiles path hnames w _ _ hvisit hinner

/-! ### Blocks -/

/-- A block of a tidy text leaves a settled text. -/
lemma settled_processBlock {out : Text} (hsited : b.Sited) (hone : b.OneLine)
    (htidy : BlockTidy settings inner frame line s b)
    (hasks : ∀ r m, BlockAsks settings inner frame line s b r m →
      r.GivesSettled settings inner frame m)
    (h : Yields (processBlock settings inner frame line b) s out s') : Settled out := by
  cases b with
  | plain text =>
    exact settled_expandLine h (isSettled_beforeCall (isSettled_of_none hsited) s) hone
      fun t ht => hasks _ _ (.plain ht)
  | directive d site =>
    obtain ⟨hfirst, hd⟩ := hsited
    have hsite : '\n' ∉ site.text := hone
    obtain ⟨hbefore, hword, hafter⟩ := Scan.WordSite.not_mem_text.mp hsite
    obtain ⟨before, s₁, hexpand, hresolved⟩ := yields_processBlock_directive h
    have hbefore' : Settled before := settled_expandLine hexpand
      (isSettled_beforeCall (isSettled_of_none (findDirective?_before hfirst)) s) hbefore
      fun t ht => hasks _ _ (.before ht)
    rcases hresolved with ⟨rfl, content, rest, s₂, suffix, hfile, hsuffix, rfl⟩ | ⟨rfl, rfl, rfl⟩
    · -- a file: three texts in a row
      obtain ⟨hrest, hmeets, hmeets'⟩ := htidy _ _ _ _ _ _ _ hexpand hfile hsuffix
      obtain ⟨⟨name, hname⟩, -⟩ := visit_of_yields_includeFile hfile
      have hcontent := settled_includeFile hfile fun path hpath => hasks _ _ (.file hexpand hpath)
      have hsuffix' := settled_expandLine hsuffix hrest
        (fun hmem => hafter (suffix_subset_of_readIncludeName hname hmem))
        fun t ht => hasks _ _ (.afterFile hexpand hfile ht)
      rw [← List.append_assoc]
      exact (hbefore'.append hcontent hmeets).append hsuffix' hmeets'
    · -- a definition stays on its line for the second pass
      have hdefinition : IsSettled (site.word ++ site.after) := isSettled_from hfirst hd.symm
      refine hbefore'.append ?_ (htidy _ _ hexpand)
      rw [settled_iff_of_not_mem (by simp [hword, hafter])]
      exact hdefinition
  | definition site body =>
    obtain ⟨before, s₁, m, body, suffix, hbefore, rfl, hread, hsuffix, rfl⟩ :=
      yields_processBlock_definition h
    obtain ⟨hsite, hstop⟩ := hone
    rw [Scan.WordSite.not_mem_text] at hsite hstop
    have hbefore' : Settled before := settled_expandLine hbefore
      (isSettled_beforeCall (isSettled_of_none (findDirective?_before hsited)) s) hsite.1
      fun t ht => hasks _ _ (.beforeDefinition ht)
    have hsuffix' : Settled suffix := settled_expandLine hsuffix (htidy _ _ _ hbefore hread)
      hstop.2.2 fun t ht => hasks _ _ (.afterDefinition hbefore hread ht)
    -- the line feeds of the macro stand between the two
    rw [MacroBody.height, List.replicate_succ, List.cons_append, settled_append_newline]
    exact ⟨hbefore', settled_replicate _ hsuffix'⟩

/-! ### Texts -/

lemma settled_processBlocks {chunks : List Text}
    (hblocks : ∀ p ∈ bs, p.2.Sited ∧ p.2.OneLine)
    (htidy : BlocksTidy settings inner frame s bs)
    (hasks : ∀ r m, BlocksAsk settings inner frame s bs r m →
      r.GivesSettled settings inner frame m)
    (h : Yields (processBlocks settings inner frame bs) s chunks s') :
    ∀ chunk ∈ chunks, Settled chunk := by
  induction bs generalizing s chunks with
  | nil =>
    obtain ⟨rfl, -⟩ := yields_processBlocks_nil.mp h
    simp
  | cons p bs ih =>
    obtain ⟨line, b⟩ := p
    rw [List.forall_mem_cons] at hblocks
    obtain ⟨hfirst, hlater⟩ := htidy
    obtain ⟨chunk, s₁, rest, hchunk, hrest, rfl⟩ := yields_processBlocks_cons.mp h
    rw [List.forall_mem_cons]
    refine ⟨settled_processBlock hblocks.1.1 hblocks.1.2 hfirst
      (fun r m hr => hasks r m (.here hr)) hchunk, ?_⟩
    exact ih hblocks.2 (hlater _ _ hchunk) (fun r m hr => hasks r m (.later hchunk hr)) hrest

/-- What a text asks for comes to nothing else than the text does. -/
lemma Reaches.head {levels depth : Nat} {v w u : Visit} {r : Request} {m : MacroTable}
    (hasks : v.Asks settings (levels + 1) r m) (hw : r.visit? settings v.frame m = some w)
    (h : Reaches settings levels w depth u) : Reaches settings (levels + 1) v (depth + 1) u := by
  induction h with
  | self => exact .step .self hasks hw
  | @step depth _ _ _ _ _ hasks' hw' ih =>
    refine .step ih ?_ hw'
    rwa [Nat.add_sub_add_right]

/-- A text is expanded to a settled text, if it is tidy and so is all that it comes to. -/
theorem settled_of_yields {levels : Nat} {v : Visit} {out : Text}
    (htidy : ∀ depth w, Reaches settings levels v depth w → w.Tidy settings (levels - depth))
    (h : Yields (processText settings levels v.frame v.text) v.macros out s') : Settled out := by
  induction levels generalizing v out s' with
  | zero => exact absurd h yields_throw
  | succ levels ih =>
    obtain ⟨_, chunks, ⟨⟩, hchunks, rfl⟩ := yields_processText h
    refine settled_joinLines (ne_nil_of_yields hchunks (Block.ofText_ne_nil v.text)) ?_
    refine settled_processBlocks (fun p hp => ⟨Block.sited_of_mem_ofText hp,
      Block.oneLine_of_mem_ofText hp⟩) (htidy 0 v .self) (fun r m hasks w out m' hw hout => ?_)
      hchunks
    refine ih (fun depth u hu => ?_) hout
    have := htidy (depth + 1) u (hu.head hasks hw)
    rwa [Nat.add_sub_add_right] at this

end Expansion

end MipsAsm
