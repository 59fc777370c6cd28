import MipsAsm.Proofs.Preprocess.Nesting
import MipsAsm.Proofs.Preprocess.Symbols
import MipsAsm.Proofs.Scan.Search

/-!
# Places of lines

Where no macro call of a text and no file that it includes gives more than one line, the lines of
the text keep their places: each line becomes one line, and the lines of a macro definition become
what stands in front of it, empty lines, and what stands behind it (`Expansion.Placed`,
`Expansion.Visit.placed`).
-/

namespace MipsAsm

open Run

/-! ### Lines of blocks -/

namespace Block

/-- The parts of a block that are processed have no line feed. -/
def OneLine : Block → Prop
  | .plain line                  => '\n' ∉ line
  | .directive _ site            => '\n' ∉ site.text
  | .definition site none        => '\n' ∉ site.text
  | .definition site (some body) => '\n' ∉ site.text ∧ '\n' ∉ body.stop.text

lemma newline_not_mem_stop {ls : List Text} {body : MacroBody}
    (h : MacroBody.ofLines? ls = some body) (hls : ∀ l ∈ ls, '\n' ∉ l) : '\n' ∉ body.stop.text := by
  induction ls generalizing body with
  | nil => cases h
  | cons l ls ih =>
    rw [List.forall_mem_cons] at hls
    rw [MacroBody.ofLines?] at h
    split at h
    · next hstop =>
      cases h
      rw [Scan.text_of_findKeyword? hstop]
      exact hls.1
    · obtain ⟨body', hbody, rfl⟩ := Option.map_eq_some_iff.mp h
      have hlater := ih hbody hls.2
      exact hlater

lemma oneLine_ofLine {line : Text} {ls : List Text} (hline : '\n' ∉ line)
    (hls : ∀ l ∈ ls, '\n' ∉ l) : (ofLine line ls).OneLine := by
  unfold ofLine
  split
  · exact hline
  · next site hsite =>
    rw [← Scan.text_of_findKeyword? hsite] at hline
    split
    · cases hbody : MacroBody.ofLines? ls with
      | none => exact hline
      | some body => exact ⟨hline, newline_not_mem_stop hbody hls⟩
    · exact hline

lemma oneLine_of_mem_ofText {t : Text} {p : Nat × Block} (h : p ∈ ofText t) : p.2.OneLine := by
  obtain ⟨line, following, hdrop, hb⟩ := eq_ofLine_of_mem_ofLinesFrom h
  have hlines : ∀ l ∈ line :: following, '\n' ∉ l := by
    rw [← hdrop]
    exact fun l hl => Text.newline_not_mem_of_mem_lines (List.mem_of_mem_drop hl)
  rw [List.forall_mem_cons] at hlines
  rw [hb]
  exact oneLine_ofLine hlines.1 hlines.2

end Block

namespace Expansion

/-! ### Calls and files that give one line -/

/-- What a request leads to is processed to one line, if it is processed to its end. -/
def Request.GivesOneLine (settings : Settings) (inner : Frame → Text → Expansion Text)
    (frame : Frame) (r : Request) (m : MacroTable) : Prop :=
  ∀ w out m', r.visit? settings frame m = some w →
    Yields (inner w.frame w.text) w.macros out m' → '\n' ∉ out

variable {settings : Settings} {inner : Frame → Text → Expansion Text} {frame : Frame}
  {s s' : MacroTable} {line : Nat} {b : Block} {bs bs' : List (Nat × Block)} {r : Request}

lemma BlocksAsk.append {m : MacroTable} (h : BlocksAsk settings inner frame s bs r m)
    (bs' : List (Nat × Block)) : BlocksAsk settings inner frame s (bs ++ bs') r m := by
  induction h with
  | here h => exact .here h
  | later hb _ ih => exact .later hb ih

lemma BlocksAsk.after {m s₁ : MacroTable} {chunks : List Text}
    (hbs : Yields (processBlocks settings inner frame bs) s chunks s₁)
    (h : BlocksAsk settings inner frame s₁ bs' r m) :
    BlocksAsk settings inner frame s (bs ++ bs') r m := by
  induction bs generalizing s chunks with
  | nil =>
    obtain ⟨-, rfl⟩ := yields_processBlocks_nil.mp hbs
    exact h
  | cons p bs ih =>
    obtain ⟨chunk, s₂, rest, hchunk, hrest, -⟩ := yields_processBlocks_cons.mp hbs
    exact .later hchunk (ih hrest)

/-- A line without call stays as it is. Otherwise the text that its first call expands to stands in
place of the call and of what follows it. -/
lemma yields_expandLine {inner : Text → Expansion Text} {l out : Text}
    (h : Yields (expandLine inner l) s out s') :
    (Scan.findInCode? (fun w => (s.find? w).isSome) l = none ∧ out = l ∧ s = s') ∨
    ∃ (site : Scan.WordSite) (t expansion : Text),
      Scan.findInCode? (fun w => (s.find? w).isSome) l = some site ∧ LineCalls s l t ∧
      Yields (inner t) s expansion s' ∧ out = site.before ++ expansion := by
  cases hsite : Scan.findInCode? (fun w => (s.find? w).isSome) l with
  | none =>
    obtain ⟨rfl, rfl⟩ := yields_pure.mp ((yields_congr (run_expandLine_of_none hsite)).mp h)
    exact Or.inl ⟨rfl, rfl, rfl⟩
  | some site =>
    obtain ⟨m, hm⟩ := Option.isSome_iff_exists.mp (Scan.isFirst_of_findInCode? hsite).accepted
    have hcall := (yields_congr (run_expandLine_of_some hsite hm)).mp h
    simp only [expandCall, yields_bind, yields_lift, yields_log, yields_pure] at hcall
    obtain ⟨expansion, _, ⟨arguments, _, ⟨harguments, rfl⟩, _, _, rfl, hinner⟩, rfl, rfl⟩ := hcall
    exact Or.inr ⟨site, _, expansion, rfl, ⟨site, m, arguments, hsite, hm, harguments, rfl⟩,
      hinner, rfl⟩

lemma newline_not_mem_expandLine {l out : Text}
    (h : Yields (expandLine (inner frame) l) s out s') (hl : '\n' ∉ l)
    (hone : ∀ t, LineCalls s l t → (Request.call t).GivesOneLine settings inner frame s) :
    '\n' ∉ out := by
  rcases yields_expandLine h with ⟨-, rfl, -⟩ | ⟨site, t, expansion, hsite, hcalls, hinner, rfl⟩
  · exact hl
  · rw [List.mem_append, not_or]
    exact ⟨Scan.not_mem_before hsite hl, hone t hcalls _ _ _ rfl hinner⟩

lemma suffix_subset_of_readIncludeName {rest name suffix : Text}
    (h : readIncludeName rest = .ok (name, suffix)) : suffix ⊆ rest := by
  have htrim : rest.trimLeft ⊆ rest := List.dropWhile_subset _
  rw [readIncludeName] at h
  split at h
  · next r hr =>
    rw [hr] at htrim
    split at h
    · cases h
    · next hclose =>
      dsimp only at h
      split at h
      · cases h
      · cases h
        -- between quotes: what follows the second one
        have hdrop := List.dropWhile_subset (fun c : Char => decide (c ≠ '"')) (l := r)
        rw [hclose] at hdrop
        exact List.Subset.trans (List.subset_cons_self _ _)
          (List.Subset.trans hdrop (List.Subset.trans (List.subset_cons_self _ _) htrim))
  · dsimp only at h
    split at h
    · cases h
    · cases h
      exact List.Subset.trans (List.dropWhile_subset _) htrim

/-- An included file is a text that is asked for, and what follows its name is left. -/
lemma visit_of_yields_includeFile {rest content suffix : Text}
    (h : Yields (includeFile settings inner frame rest) s (content, suffix) s') :
    (∃ name, readIncludeName rest = .ok (name, suffix)) ∧
    ∃ path w, NamesFile settings frame.file s rest path ∧
      (Request.file path).visit? settings frame s = some w ∧
      Yields (inner w.frame w.text) w.macros content s' := by
  obtain ⟨⟨name, suffix'⟩, s₁, hlift, h⟩ := yields_bind.mp h
  obtain ⟨hread, rfl⟩ := yields_lift.mp hlift
  obtain ⟨path, s₁, hlocate, h⟩ := yields_bind.mp h
  obtain rfl := state_of_yields_locate hlocate
  dsimp only at h
  split at h
  · exact absurd h yields_throw
  · next hactive =>
    obtain ⟨text, s₁, hsource, h⟩ := yields_bind.mp h
    obtain ⟨hcontent, rfl⟩ := yields_readSource.mp hsource
    simp only [yields_bind, yields_mapError, yields_log, yields_pure] at h
    obtain ⟨processed, s₂, hinner, -, _, rfl, heq, rfl⟩ := h
    cases heq
    exact ⟨⟨name, hread⟩, path, _, ⟨name, suffix, hread, hlocate⟩,
      Request.visit?_file.mpr ⟨hactive, text, hcontent, rfl⟩, hinner⟩

lemma newline_not_mem_includeFile {rest content suffix : Text}
    (h : Yields (includeFile settings inner frame rest) s (content, suffix) s')
    (hrest : '\n' ∉ rest)
    (hone : ∀ path, NamesFile settings frame.file s rest path →
      (Request.file path).GivesOneLine settings inner frame s) :
    '\n' ∉ content ∧ '\n' ∉ suffix := by
  obtain ⟨⟨name, hread⟩, path, w, hnames, hvisit, hinner⟩ := visit_of_yields_includeFile h
  exact ⟨hone path hnames w _ _ hvisit hinner,
    fun hmem => hrest (suffix_subset_of_readIncludeName hread hmem)⟩

/-! ### Single blocks -/

/-- The lines of a block become these lines: one line, or what stands in front of a macro definition
and behind it, with empty lines for the lines in between. -/
inductive Becomes (settings : Settings) (inner : Frame → Text → Expansion Text) (frame : Frame)
    (line : Nat) (s : MacroTable) : Block → List Text → MacroTable → Prop where
  | line {b : Block} {out : Text} {s' : MacroTable} (hb : b.extraLines = 0)
      (h : Yields (processBlock settings inner frame line b) s out s') :
      Becomes settings inner frame line s b [out] s'
  | definition {site : Scan.WordSite} {body : MacroBody} {m : Macro} {before after : Text}
      {s₁ s' : MacroTable} (hbefore : Yields (expandLine (inner frame) site.before) s before s₁)
      (hread : readMacro line site.after (some body) = .ok (m, body))
      (hafter : Yields (expandLine (inner frame) body.stop.after) (s₁.insert m) after s') :
      Becomes settings inner frame line s (.definition site (some body))
        (before :: (List.replicate body.lines.length [] ++ [after])) s'

lemma Becomes.length_eq {lines : List Text} (h : Becomes settings inner frame line s b lines s') :
    lines.length = 1 + b.extraLines := by
  cases h with
  | line hb _ => rw [hb, List.length_singleton]
  | definition hbefore hread hafter =>
    simp only [List.length_cons, List.length_append, List.length_replicate, Block.extraLines,
      MacroBody.height, List.length_nil]
    omega

lemma lines_definition {before after : Text} (hbefore : '\n' ∉ before) (hafter : '\n' ∉ after)
    (n : Nat) : Text.lines (before ++ (List.replicate (n + 1) '\n' ++ after)) =
      before :: (List.replicate n [] ++ [after]) := by
  have hempty (n : Nat) : Text.lines (List.replicate n '\n' ++ after) =
      List.replicate n [] ++ [after] := by
    induction n with
    | zero => exact Text.lines_eq_singleton hafter
    | succ n ih =>
      rw [List.replicate_succ, List.cons_append, Text.lines_newline_cons, ih, List.replicate_succ,
        List.cons_append]
  rw [List.replicate_succ, List.cons_append, Text.lines_append_newline hbefore, hempty]

lemma becomes_lines {out : Text} (hb : b.OneLine)
    (hone : ∀ r m, BlockAsks settings inner frame line s b r m →
      r.GivesOneLine settings inner frame m)
    (h : Yields (processBlock settings inner frame line b) s out s') :
    Becomes settings inner frame line s b out.lines s' := by
  cases b with
  | plain text =>
    have hout := newline_not_mem_expandLine h hb fun t ht => hone _ _ (.plain ht)
    rw [Text.lines_eq_singleton hout]
    exact .line rfl h
  | directive d site =>
    have hsite : '\n' ∉ site.text := hb
    obtain ⟨hbefore, hword, hafter⟩ := Scan.WordSite.not_mem_text.mp hsite
    obtain ⟨before, s₁, hexpand, hresolved⟩ := yields_processBlock_directive h
    have hbefore' := newline_not_mem_expandLine hexpand hbefore fun t ht => hone _ _ (.before ht)
    -- a directive leaves what stands around it, and a file or itself in between
    have hout : '\n' ∉ out := by
      rcases hresolved with ⟨rfl, content, rest, s₂, suffix, hfile, hsuffix, rfl⟩ | ⟨rfl, rfl, rfl⟩
      · obtain ⟨hcontent, hrest⟩ := newline_not_mem_includeFile hfile hafter
          fun path hpath => hone _ _ (.file hexpand hpath)
        have hsuffix' := newline_not_mem_expandLine hsuffix hrest
          fun t ht => hone _ _ (.afterFile hexpand hfile ht)
        simp [hbefore', hcontent, hsuffix']
      · simp [hbefore', hword, hafter]
    rw [Text.lines_eq_singleton hout]
    exact .line rfl h
  | definition site body =>
    obtain ⟨before, s₁, m, body, after, hbefore, rfl, hread, hafter, rfl⟩ :=
      yields_processBlock_definition h
    obtain ⟨hsite, hstop⟩ := hb
    rw [Scan.WordSite.not_mem_text] at hsite hstop
    have hbefore' := newline_not_mem_expandLine hbefore hsite.1
      fun t ht => hone _ _ (.beforeDefinition ht)
    have hafter' := newline_not_mem_expandLine hafter hstop.2.2
      fun t ht => hone _ _ (.afterDefinition hbefore hread ht)
    rw [MacroBody.height, lines_definition hbefore' hafter']
    exact .definition hbefore hread hafter

/-! ### Texts -/

lemma length_lines_of_yields {chunks : List Text} (hbs : ∀ p ∈ bs, p.2.OneLine)
    (hone : ∀ r m, BlocksAsk settings inner frame s bs r m →
      r.GivesOneLine settings inner frame m)
    (h : Yields (processBlocks settings inner frame bs) s chunks s') :
    (chunks.flatMap Text.lines).length = Block.lineCount bs := by
  induction bs generalizing s chunks with
  | nil =>
    obtain ⟨rfl, -⟩ := yields_processBlocks_nil.mp h
    rfl
  | cons p bs ih =>
    obtain ⟨line, b⟩ := p
    rw [List.forall_mem_cons] at hbs
    obtain ⟨chunk, s₁, rest, hchunk, hrest, rfl⟩ := yields_processBlocks_cons.mp h
    have hfirst := becomes_lines hbs.1 (fun r m hr => hone r m (.here hr)) hchunk
    have hlater := ih hbs.2 (fun r m hr => hone r m (.later hchunk hr)) hrest
    rw [List.flatMap_cons, List.length_append, hlater, hfirst.length_eq, Block.lineCount]

/-- The lines of a text have become other lines in their places. There are as many of them, each
line belongs to a block, and the lines that a block takes have become what the block becomes after
the blocks before it. -/
structure Placed (settings : Settings) (inner : Frame → Text → Expansion Text) (frame : Frame)
    (text : Text) (s : MacroTable) (expanded : List Text) : Prop where
  length_eq : expanded.length = text.lines.length
  covers (i : Nat) (hi : i < text.lines.length) :
    ∃ p ∈ Block.ofText text, p.1 ≤ i + 1 ∧ i + 1 ≤ p.1 + p.2.extraLines
  becomes (bs bs' : List (Nat × Block)) (n : Nat) (b : Block)
    (h : Block.ofText text = bs ++ (n, b) :: bs') :
    (∃ line following, text.lines.drop (n - 1) = line :: following ∧ b = .ofLine line following) ∧
    ∃ chunks s₁ s₂, Yields (processBlocks settings inner frame bs) s chunks s₁ ∧
      Becomes settings inner frame n s₁ b ((expanded.drop (n - 1)).take (1 + b.extraLines)) s₂

lemma placed_of_yields {text : Text} {chunks : List Text}
    (hone : ∀ r m, BlocksAsk settings inner frame s (Block.ofText text) r m →
      r.GivesOneLine settings inner frame m)
    (h : Yields (processBlocks settings inner frame (Block.ofText text)) s chunks s') :
    Placed settings inner frame text s (Text.joinLines chunks).lines := by
  have hblocks : ∀ p ∈ Block.ofText text, p.2.OneLine := fun p => Block.oneLine_of_mem_ofText
  have hne : chunks ≠ [] := ne_nil_of_yields h (Block.ofText_ne_nil text)
  rw [Text.lines_joinLines_eq_flatMap hne]
  refine ⟨?_, fun i hi => Block.exists_mem_ofLinesFrom (by omega) (by omega), ?_⟩
  · rw [length_lines_of_yields hblocks hone h]
    have := Block.lineCount_ofLinesFrom 1 (Nat.zero_le text.lines.length)
    rwa [Nat.zero_add] at this
  · intro bs bs' n b hsplit
    have hn := Block.fst_of_ofLinesFrom_eq hsplit
    have hmem : (n, b) ∈ Block.ofText text := by
      rw [hsplit]
      exact List.mem_append_right bs List.mem_cons_self
    refine ⟨Block.eq_ofLine_of_mem_ofLinesFrom hmem, ?_⟩
    -- what the blocks before this one come to takes as many lines as they do
    rw [hsplit] at h hone hblocks
    rw [List.forall_mem_append, List.forall_mem_cons] at hblocks
    obtain ⟨first, s₁, second, hfirst, hsecond, rfl⟩ := yields_processBlocks_append.mp h
    obtain ⟨chunk, s₂, rest, hchunk, hrest, rfl⟩ := yields_processBlocks_cons.mp hsecond
    have hbecomes := becomes_lines hblocks.2.1
      (fun r m hr => hone r m (BlocksAsk.after hfirst (.here hr))) hchunk
    have hlength := length_lines_of_yields hblocks.1 (fun r m hr => hone r m (hr.append _)) hfirst
    refine ⟨first, s₁, s₂, hfirst, ?_⟩
    rw [List.flatMap_append, List.flatMap_cons, List.drop_left' (by omega),
      List.take_left' hbecomes.length_eq]
    exact hbecomes

/-- The text of a visit keeps the places of its lines, if no more than one line stands for each call
and each file in it. -/
theorem Visit.placed {levels : Nat} {v : Visit} {unit : Text}
    (hone : ∀ r m, v.Asks settings levels r m →
      r.GivesOneLine settings (processText settings (levels - 1)) v.frame m)
    (h : Yields (processText settings levels v.frame v.text) v.macros unit s') :
    Placed settings (processText settings (levels - 1)) v.frame v.text v.macros unit.lines := by
  obtain ⟨levels, chunks, rfl, hchunks, rfl⟩ := yields_processText h
  exact placed_of_yields hone hchunks

end Expansion

namespace Session

lemma unit_of_process {settings : Settings} {text out : Text} {s : Session}
    (h : ((process settings text).run s).result = .ok out) :
    ∃ unit m symbols s₁ s₂, Yields (Expansion.expand settings text) s.macros unit m ∧
      Yields (replaceSymbols unit) (s₁ : Session) (out, symbols) s₂ := by
  obtain ⟨unit, s₁, hexpand, h⟩ := yields_bind.mp (yields_of_ok h)
  obtain ⟨m, hexpand, -⟩ := yields_focus.mp hexpand
  obtain ⟨⟨out', symbols⟩, s₂, hreplace, h⟩ := yields_bind.mp h
  obtain rfl : out' = out := by
    cases symbols with
    | none => exact (yields_pure.mp h).1
    | some symbols =>
      obtain ⟨_, _, _, h⟩ := yields_bind.mp h
      exact (yields_pure.mp h).1
  exact ⟨unit, m, symbols, s₁, s₂, hexpand, hreplace⟩

end Session

end MipsAsm
