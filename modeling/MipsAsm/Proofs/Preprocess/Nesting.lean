import MipsAsm.Proofs.Preprocess.Calls
import MipsAsm.Proofs.Preprocess.Limit

/-!
# Nested texts

A run comes to texts that its text asks for, and to what these ask for in turn. All that it comes
to stands in a frame to which different files led, no more than the texts are deep, and within the
limit (`Session.process_nesting`). The files of a frame are those on the stack of a `Preprocessor`,
which an inclusion leaves as it was. A run that succeeds has come to no file from within this file
and to nothing that leads on without end, and under no higher limit is there anything deeper.
-/

namespace MipsAsm

open Run

namespace Expansion

/-- While a text is processed with a number of levels left, there is a request with other macros
known. Without levels there is none. -/
def Visit.Asks (settings : Settings) : (levels : Nat) → Visit → Request → MacroTable → Prop
  | 0,          _, _, _ => False
  | levels + 1, v, r, m =>
    BlocksAsk settings (processText settings levels) v.frame v.macros (Block.ofText v.text) r m

/-- With a number of levels left a text is processed to its end. -/
def Visit.Succeeds (settings : Settings) (levels : Nat) (v : Visit) : Prop :=
  ∃ out s', Yields (processText settings levels v.frame v.text) v.macros out s'

/-- The texts that the processing of a text with a number of levels comes to, and how deep they
are. -/
inductive Reaches (settings : Settings) (levels : Nat) (v : Visit) :
    (depth : Nat) → Visit → Prop where
  | self : Reaches settings levels v 0 v
  | step {depth : Nat} {u w : Visit} {r : Request} {m : MacroTable}
      (h : Reaches settings levels v depth u) (hasks : u.Asks settings (levels - depth) r m)
      (hw : r.visit? settings u.frame m = some w) : Reaches settings levels v (depth + 1) w

variable {settings : Settings} {levels levels' depth : Nat} {u v w : Visit} {r : Request}
  {m s : MacroTable} {frame : Frame}

/-! ### Levels -/

lemma Visit.Asks.pos (h : v.Asks settings levels r m) : 0 < levels := by
  cases levels with
  | zero => exact h.elim
  | succ levels => exact Nat.succ_pos levels

lemma Reaches.depth_le (h : Reaches settings levels v depth w) : depth ≤ levels := by
  cases h with
  | self => exact Nat.zero_le _
  | step h hasks hw =>
    have := hasks.pos
    omega

/-! ### Frames -/

/-- What a text asks for stands in the frame of the text, or in that of a file which did not lead
there. -/
lemma Request.frame_of_visit? (h : r.visit? settings frame m = some w) :
    w.frame = frame ∨ ∃ path, settings.files.absolute path ∉ frame.active ∧
      w.frame = ⟨some path, settings.files.absolute path :: frame.active⟩ := by
  cases r with
  | call text =>
    cases h
    exact Or.inl rfl
  | file path =>
    obtain ⟨hactive, content, -, rfl⟩ := visit?_file.mp h
    rw [List.contains_iff_mem] at hactive
    exact Or.inr ⟨path, hactive, rfl⟩

/-- The files that led to a frame at a depth. -/
structure Frame.Nested (first : Frame) (depth : Nat) (frame : Frame) : Prop where
  distinct  : frame.active.Nodup
  length_le : frame.active.length ≤ depth + 1
  first     : first.active <:+ frame.active

lemma nested_outermost (settings : Settings) :
    Frame.Nested settings.outermost 0 settings.outermost := by
  refine ⟨?_, ?_, List.suffix_rfl⟩
  · rw [Settings.outermost]
    cases settings.source <;> simp
  · rw [Settings.outermost]
    cases settings.source <;> simp

lemma Frame.Nested.step {first : Frame} (h : Frame.Nested first depth frame)
    (hw : r.visit? settings frame m = some w) : Frame.Nested first (depth + 1) w.frame := by
  rcases Request.frame_of_visit? hw with heq | ⟨path, hpath, heq⟩
  · rw [heq]
    exact ⟨h.distinct, Nat.le_succ_of_le h.length_le, h.first⟩
  · rw [heq]
    refine ⟨List.nodup_cons.mpr ⟨hpath, h.distinct⟩, ?_, h.first.trans (List.suffix_cons _ _)⟩
    exact Nat.succ_le_succ h.length_le

lemma Reaches.nested (h : Reaches settings levels v depth w) (hv : v.frame = settings.outermost) :
    Frame.Nested settings.outermost depth w.frame := by
  induction h with
  | self => exact hv ▸ nested_outermost settings
  | step _ _ hw ih => exact ih.step hw

/-! ### Bounds -/

/-- What holds of a text at a depth, however the run ends. -/
structure Visit.Bounded (settings : Settings) (depth : Nat) (v : Visit) : Prop where
  /-- Different files led to the text, no more than the depth allows, the source file first. -/
  nested : Frame.Nested settings.outermost depth v.frame
  /-- Beyond the limit nothing is done. -/
  tooDeep (h : settings.maxDepth < depth) :
    (processText settings (settings.levels - depth) v.frame v.text).run v.macros =
      (fail (.tooDeep settings.maxDepth) : Expansion Text).run v.macros
  /-- No other text is processed but what is asked for, and that is one level deeper. -/
  recursion (h : depth ≤ settings.maxDepth) (inner : Frame → Text → Expansion Text)
    (hinner : ∀ r m w, v.Asks settings (settings.levels - depth) r m →
      r.visit? settings v.frame m = some w → (inner w.frame w.text).run w.macros =
        (processText settings (settings.levels - (depth + 1)) w.frame w.text).run w.macros) :
    (processText settings (settings.levels - depth) v.frame v.text).run v.macros =
      (processBlocks settings inner v.frame (Block.ofText v.text) >>= fun chunks =>
        pure (Text.joinLines chunks)).run v.macros
  /-- What is asked for, in front of an inclusion or after it, stands in the same frame, and a file
  that is included in a frame of its own on top of it. -/
  frames (r : Request) (m : MacroTable) (w : Visit)
    (h : v.Asks settings (settings.levels - depth) r m)
    (hw : r.visit? settings v.frame m = some w) : depth ≤ settings.maxDepth ∧
      (w.frame = v.frame ∨ ∃ path, settings.files.absolute path ∉ v.frame.active ∧
        w.frame = ⟨some path, settings.files.absolute path :: v.frame.active⟩)

lemma Reaches.bounded (h : Reaches settings settings.levels v depth w)
    (hv : v.frame = settings.outermost) : w.Bounded settings depth where
  nested := h.nested hv
  tooDeep hdeep := by
    rw [show settings.levels - depth = 0 by rw [Settings.levels]; omega]
    rfl
  recursion hdepth inner hinner := by
    have hlevels : settings.levels - depth = settings.levels - (depth + 1) + 1 := by
      rw [Settings.levels]
      omega
    rw [hlevels] at hinner ⊢
    refine run_bind_congr (run_processBlocks_congr fun r m w hasks hw => ?_) fun _ _ _ => rfl
    exact (hinner r m w hasks hw).symm
  frames r m w' hasks hw := by
    refine ⟨?_, Request.frame_of_visit? hw⟩
    have := hasks.pos
    rw [Settings.levels] at this
    omega

/-! ### Successful runs -/

lemma not_succeeds_zero : ¬ v.Succeeds settings 0 := by
  rintro ⟨out, s', h⟩
  exact yields_throw h

/-- Where a text is processed to its end, so is all that it asks for. -/
lemma Visit.Succeeds.of_asks (hv : v.Succeeds settings (levels + 1))
    (hasks : v.Asks settings (levels + 1) r m) :
    ∃ w, r.visit? settings v.frame m = some w ∧ w.Succeeds settings levels := by
  obtain ⟨out, s', hv⟩ := hv
  obtain ⟨_, chunks, ⟨⟩, hchunks, -⟩ := yields_processText hv
  cases hw : r.visit? settings v.frame m with
  | none => exact absurd hchunks (BlocksAsk.fails_of_none hasks hw).not_yields
  | some w =>
    refine ⟨w, rfl, yields_of_not_fails fun hfails => ?_⟩
    exact (BlocksAsk.fails_of_visit hasks hw (p := fun _ => True) hfails).not_yields hchunks

/-- Where a text is processed to its end, it asks for nothing else with more levels. -/
lemma Visit.Asks.of_succeeds (hle : levels ≤ levels') (hv : v.Succeeds settings levels)
    (hasks : v.Asks settings levels' r m) : v.Asks settings levels r m := by
  cases levels with
  | zero => exact absurd hv not_succeeds_zero
  | succ levels =>
    obtain ⟨levels', rfl⟩ := Nat.exists_eq_add_one.mpr (Nat.zero_lt_of_lt hle)
    refine BlocksAsk.of_congr hasks fun r' m' w hasks' hw => ?_
    -- what is asked for succeeds with fewer levels, so more of them change nothing
    obtain ⟨w', hw', out, s', hyields⟩ := hv.of_asks hasks'
    obtain rfl := Option.some.inj (hw.symm.trans hw')
    exact run_processText_of_le (Nat.le_of_succ_le_succ hle) fun hfails => hfails.not_yields hyields

/-- Where a text is processed to its end, the run comes to nothing else with more levels, and all
that it comes to is processed to its end. -/
lemma Reaches.of_succeeds (hle : levels ≤ levels') (hv : v.Succeeds settings levels)
    (h : Reaches settings levels' v depth w) :
    Reaches settings levels v depth w ∧ w.Succeeds settings (levels - depth) := by
  induction h with
  | self => exact ⟨.self, hv⟩
  | @step depth u w r m h hasks hw ih =>
    obtain ⟨hu, hsucceeds⟩ := ih
    have hasks' := Visit.Asks.of_succeeds (by omega) hsucceeds hasks
    refine ⟨.step hu hasks' hw, ?_⟩
    obtain ⟨n, hn⟩ := Nat.exists_eq_add_one.mpr hasks'.pos
    rw [hn] at hsucceeds hasks'
    obtain ⟨w', hw', hok⟩ := hsucceeds.of_asks hasks'
    -- `w` succeeds below `u`, with the levels that are left there
    obtain rfl := Option.some.inj (hw.symm.trans hw')
    rwa [show levels - (depth + 1) = n by omega]

/-! ### Recursion -/

/-- The texts of a kind lead on without end: each of them that is processed to its end comes to
another one. -/
def Endless (settings : Settings) (P : Visit → Prop) : Prop :=
  ∀ v levels, P v → v.Succeeds settings levels →
    ∃ depth w, Reaches settings levels v (depth + 1) w ∧ P w

/-- The text is what a call of a known macro expands to. -/
def Visit.Expands (v : Visit) (m : Macro) : Prop :=
  v.macros.find? m.name = some m ∧ ∃ arguments, v.text = m.instantiate arguments

variable {P : Visit → Prop}

/-- No text that leads on without end is processed to its end: there would be a next one that is so
with fewer levels. -/
lemma Endless.not_succeeds (h : Endless settings P) (hv : P v) : ¬ v.Succeeds settings levels := by
  induction levels using Nat.strongRecOn generalizing v with
  | ind levels ih =>
    intro hsucceeds
    obtain ⟨depth, w, hw, hP⟩ := h v levels hv hsucceeds
    have hfewer : levels - (depth + 1) < levels := by
      have := hw.depth_le
      omega
    exact ih _ hfewer hP (hw.of_succeeds (Nat.le_refl _) hsucceeds).2

/-- Macros lead on without end if the first line of each expansion calls one of them again. -/
lemma endless_of_calls
    (h : ∀ v, P v → ∃ line bs t, Block.ofText v.text = (1, .plain line) :: bs ∧
      LineCalls v.macros line t ∧ P ⟨v.frame, t, v.macros⟩) : Endless settings P := by
  intro v levels hv hsucceeds
  obtain ⟨line, bs, t, hblocks, hcalls, hP⟩ := h v hv
  cases levels with
  | zero => exact absurd hsucceeds not_succeeds_zero
  | succ levels =>
    have hasks : v.Asks settings (levels + 1) (.call t) v.macros := by
      rw [Visit.Asks, hblocks]
      exact .here (.plain hcalls)
    exact ⟨0, _, .step .self hasks rfl, hP⟩

/-- A macro whose body is a call of it, and nothing else. -/
def onlyItself : Macro := ⟨['r'], [], ['r'], 1⟩

/-- The expansions of `onlyItself` lead on without end, so that no run that comes to one of them
succeeds. -/
theorem endless_onlyItself (settings : Settings) : Endless settings (·.Expands onlyItself) := by
  refine endless_of_calls fun v ⟨hknown, _, htext⟩ => ?_
  have hblocks : Block.ofText v.text = [(1, .plain ['r'])] := by
    rw [show v.text = ['r'] from htext]
    decide +kernel
  have hfound : (v.macros.find? ['r']).isSome = true := Option.isSome_of_eq_some hknown
  have hsite : Scan.findInCode? (fun w => (v.macros.find? w).isSome) ['r'] =
      some ⟨[], ['r'], []⟩ := by
    have hsegments : Scan.segments ['r'] = [⟨.code, ['r']⟩] := by decide
    have hpieces : Scan.pieces ['r'] = [.word ['r']] := by decide
    rw [Scan.findInCode?, hsegments, Scan.findInSegments?, if_pos rfl, hpieces, Scan.findPiece?,
      if_pos hfound]
    rfl
  exact ⟨['r'], [], ['r'], hblocks, ⟨_, onlyItself, [], hsite, hknown, rfl, rfl⟩, hknown, [], rfl⟩

end Expansion

namespace Session

open Expansion

/-- What a session comes to when it preprocesses a text, with a number of levels. -/
abbrev Comes (settings : Settings) (text : Text) (s : Session) (levels depth : Nat)
    (v : Visit) : Prop :=
  Reaches settings levels ⟨settings.outermost, text, s.macros⟩ depth v

lemma succeeds_of_process {settings : Settings} {text out : Text} {s : Session}
    (h : ((process settings text).run s).result = .ok out) :
    Visit.Succeeds settings settings.levels ⟨settings.outermost, text, s.macros⟩ := by
  obtain ⟨unit, s₁, hexpand, -⟩ := yields_bind.mp (yields_of_ok h)
  obtain ⟨macros, hexpand, -⟩ := yields_focus.mp hexpand
  exact ⟨unit, macros, hexpand⟩

/-- Preprocessing ends. The blocks of every text begin one after the other on its lines. Each text
that a run comes to is one level deeper than the one that asks for it, nothing is done beyond the
limit, and the files that led to a text are different ones, no more than its depth allows. A
preprocessor, which has these files on a stack in its state, processes a text under the stack as it
is done in a frame. If what is nested in an inclusion is processed in this way, then so is the
inclusion, and the stack is as it was before, in failure as in success. If the run succeeds, then it
has come to nothing beyond the limit, not even under a higher one, to no file from within this file,
and to nothing that leads on without end. -/
theorem process_nesting (settings : Settings) (text : Text) (s : Session) :
    (∀ t, (Block.ofText t).Pairwise (fun p q => p.1 + p.2.extraLines < q.1) ∧
      ∀ p ∈ Block.ofText t, 1 ≤ p.1 ∧ p.1 + p.2.extraLines ≤ t.lines.length) ∧
    (∀ depth v, Comes settings text s settings.levels depth v → v.Bounded settings depth) ∧
    (∀ levels file t, Preprocessor.processText settings levels file t =
      Preprocessor.framed fun stack => processText settings levels ⟨file, stack⟩ t) ∧
    (∀ inner step,
      (∀ file t, step file t = Preprocessor.framed fun stack => inner ⟨file, stack⟩ t) →
      ∀ file rest (p : Preprocessor),
        let o := (includeFile settings inner ⟨file, p.stack⟩ rest).run p.macros
        (Preprocessor.includeFile settings step file rest).run p =
          ⟨o.result, { p with macros := o.state }, o.events⟩) ∧
    ∀ out, ((process settings text).run s).result = .ok out →
      ∀ levels depth v, settings.levels ≤ levels → Comes settings text s levels depth v →
        (depth : Int) ≤ settings.maxDepth ∧
        (∀ path m, v.Asks settings (levels - depth) (.file path) m →
          settings.files.absolute path ∉ v.frame.active) ∧
        ∀ P, Endless settings P → ¬ P v := by
  refine ⟨Block.ofText_increasing, fun depth v hv => hv.bounded rfl, Preprocessor.processText_eq,
    fun inner step hstep file rest p => ?_, fun out hout levels depth v hle hv => ?_⟩
  · rw [Preprocessor.includeFile_eq hstep]
    rfl
  -- all that is left is about a run that succeeds: each text in it does, and so has levels left
  obtain ⟨hv, hsucceeds⟩ := hv.of_succeeds hle (succeeds_of_process hout)
  have hlevels : 0 < settings.levels - depth := by
    refine Nat.pos_of_ne_zero fun hzero => ?_
    rw [hzero] at hsucceeds
    exact not_succeeds_zero hsucceeds
  refine ⟨?_, fun path m hasks => ?_, fun P hP hv => hP.not_succeeds hv hsucceeds⟩
  · rw [Settings.levels] at hlevels
    omega
  · obtain ⟨n, hn⟩ := Nat.exists_eq_add_one.mpr hlevels
    have hasks' := Visit.Asks.of_succeeds (by omega) hsucceeds hasks
    rw [hn] at hasks' hsucceeds
    -- a file that is asked for has a text, which no file has within itself
    obtain ⟨w, hw, -⟩ := hsucceeds.of_asks hasks'
    intro hmem
    rw [Request.visit?, if_pos (List.contains_iff_mem.mpr hmem)] at hw
    cases hw

/-- A source beside a file with an instruction. -/
def besideNop : Settings :=
  let tree : FileTree := ⟨[], [([['x']], .file "nop".toUTF8.toList)]⟩
  { files := tree.files, source := some (Path.ofText ['s']) }

/-- The file beside the source is included. An inclusion of the source fails, and leaves the stack
as it was. -/
theorem process_nesting_include :
    Comes besideNop ".include \"x\"".toList {} besideNop.levels 1
      ⟨⟨some (Path.ofText ['x']), [[['x']], [['s']]]⟩, "nop".toList, []⟩ ∧
    ([[['x']], [['s']]] : List (List Text)).Nodup ∧ (1 : Int) ≤ besideNop.maxDepth ∧
    ∀ p : Preprocessor, ((Preprocessor.includeFile besideNop (Preprocessor.processText besideNop 16)
      besideNop.source " \"s\"".toList).run p).state.stack = p.stack := by
  have hblocks : Block.ofText ".include \"x\"".toList =
      [(1, .directive (some .includeFile) ⟨[], ".include".toList, " \"x\"".toList⟩)] := by
    decide +kernel
  have hcomes : Comes besideNop ".include \"x\"".toList {} besideNop.levels 1
      ⟨⟨some (Path.ofText ['x']), [[['x']], [['s']]]⟩, "nop".toList, []⟩ := by
    refine .step (r := .file (Path.ofText ['x'])) (m := []) .self ?_ (by decide +kernel)
    have hbefore (inner : Text → Expansion Text) : Yields (expandLine inner []) [] [] [] :=
      ⟨rfl, rfl⟩
    show BlocksAsk _ _ _ _ (Block.ofText ".include \"x\"".toList) _ _
    rw [hblocks]
    refine .here (.file (hbefore _) ?_)
    exact ⟨['x'], [], by decide +kernel, by decide +kernel, by decide +kernel⟩
  have hout : ((process besideNop ".include \"x\"".toList).run {}).result = .ok "nop".toList := by
    decide +kernel
  obtain ⟨-, hvisit, htext, hinclude, hreturns⟩ :=
    process_nesting besideNop ".include \"x\"".toList {}
  refine ⟨hcomes, (hvisit _ _ hcomes).nested.distinct,
    (hreturns _ hout _ _ _ (Nat.le_refl _) hcomes).1, fun p => ?_⟩
  rw [hinclude _ _ (htext 16) besideNop.source " \"s\"".toList p]

/-- A macro that calls itself. Where its argument is a macro too, that one takes the rest of the
line, and with it the call. -/
def callsItself : Macro := ⟨['m'], ["%x".toList], "%x m(stop)".toList, 4⟩

/-- A call of `callsItself`, below the definitions of the macros that it needs. -/
def callOfCallsItself : Text :=
  ".macro stop(%x)\nnop\n.end_macro\n.macro m(%x)\n%x m(stop)\n.end_macro\nm(nop)".toList

/-- Not every macro that calls itself leads on without end: the second expansion of this one calls
another macro, and the text is processed to its end. -/
theorem process_callOfCallsItself :
    ∃ u w : Visit, Comes (withoutFiles 16) callOfCallsItself {} 17 1 u ∧ u.Expands callsItself ∧
      u.Asks (withoutFiles 16) 16 (.call w.text) w.macros ∧ w.Expands callsItself ∧
      ((process (withoutFiles 16) callOfCallsItself).run {}).result =
        .ok "\n\n\n\n\n\nnop nop".toList := by
  let stop : Macro := ⟨"stop".toList, ["%x".toList], "nop".toList, 1⟩
  let known : MacroTable := [callsItself, stop]
  let frame : Frame := ⟨none, []⟩
  refine ⟨⟨frame, "nop m(stop)".toList, known⟩, ⟨frame, "stop m(stop)".toList, known⟩,
    ?_, ?_, ?_, ?_, by decide +kernel⟩
  · have hblocks : Block.ofText callOfCallsItself =
        [(1, .definition ⟨[], ".macro".toList, " stop(%x)".toList⟩
          (some ⟨["nop".toList], ⟨[], ".end_macro".toList, []⟩⟩)),
         (4, .definition ⟨[], ".macro".toList, " m(%x)".toList⟩
          (some ⟨["%x m(stop)".toList], ⟨[], ".end_macro".toList, []⟩⟩)),
         (7, .plain "m(nop)".toList)] := by
      decide +kernel
    refine .step (r := .call "nop m(stop)".toList) (m := known) .self ?_ rfl
    show BlocksAsk _ _ _ _ (Block.ofText callOfCallsItself) _ _
    rw [hblocks]
    refine .later (show Yields _ _ "\n\n".toList [stop] from
      ⟨by decide +kernel, by decide +kernel⟩) ?_
    refine .later (show Yields _ _ "\n\n".toList known from
      ⟨by decide +kernel, by decide +kernel⟩) ?_
    exact .here (.plain ⟨⟨[], ['m'], "(nop)".toList⟩, callsItself, ["nop".toList],
      by decide +kernel, by decide +kernel, by decide +kernel, by decide +kernel⟩)
  · exact ⟨by decide +kernel, ["nop".toList], by decide +kernel⟩
  · exact .here (.plain ⟨⟨"nop ".toList, ['m'], "(stop)".toList⟩, callsItself, ["stop".toList],
      by decide +kernel, by decide +kernel, by decide +kernel, by decide +kernel⟩)
  · exact ⟨by decide +kernel, ["stop".toList], by decide +kernel⟩

end Session

end MipsAsm
