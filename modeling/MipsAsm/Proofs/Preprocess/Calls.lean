import MipsAsm.Preprocess.Session
import MipsAsm.Proofs.Journal.Run

/-!
# Calls one after the other

A `Preprocessor` has its macros, its symbols and the stack of included files in one state, changes
them in place, and is used again after a call, whether or not that succeeded. What a call leaves
behind is what a session keeps, and an empty stack (`Preprocessor.run_process`). Of that only the
macros matter to a later call (`Preprocessor.process_after_calls`).
-/

namespace MipsAsm

namespace Session

/-- Replace the symbols of an expanded unit, and remember them. -/
def replace (unit : Text) : Run Session Diagnostic Text := do
  match ← replaceSymbols unit with
  | (out, none)         => pure out
  | (out, some symbols) => do
    Run.modify fun s => { s with symbols }
    pure out

lemma process_eq (settings : Settings) (text : Text) :
    process settings text = onMacros (Expansion.expand settings text) >>= replace := rfl

lemma run_onMacros {ε α : Type} (x : Run MacroTable ε α) (s : Session) :
    (onMacros x).run s =
      (let o := x.run s.macros
       (⟨o.result, { s with macros := o.state }, o.events⟩ : Outcome _ _ _)) := rfl

end Session

/-- A session with the places of the files that are being included, the last one first. -/
structure Preprocessor extends Session where
  stack : List (List Text) := []
deriving DecidableEq, Repr

namespace Preprocessor

/-- A step of a preprocessor, which may change all of its state. -/
abbrev Step := Run Preprocessor Diagnostic

variable {α β : Type}

/-- A step of the expansion under the files on the stack. -/
def framed (x : List (List Text) → Expansion α) : Step α := fun p =>
  let o := (x p.stack).run p.macros
  ⟨o.result, { p with macros := o.state }, o.events⟩

/-- A step of the expansion that no stack matters to. -/
def unframed (x : Expansion α) : Step α := framed fun _ => x

/-- A step with a file on top of the stack. It is removed whether or not the step succeeds. -/
def pushing (place : List Text) (x : Step α) : Step α := fun p =>
  let o := x.run { p with stack := place :: p.stack }
  ⟨o.result, { o.state with stack := o.state.stack.tail }, o.events⟩

/-- A step after which the stack is empty, whether or not the step succeeds. -/
def clearing (x : Step α) : Step α := fun p =>
  let o := x.run p
  ⟨o.result, { o.state with stack := [] }, o.events⟩

/-! ### Expansion in place -/

/-- Expand a call, and process the result with `inner`. -/
def expandCall (inner : Text → Step Text) (m : Macro) (rest : Text) : Step Text := do
  let arguments ← unframed (Expansion.lift (Expansion.callArguments m rest))
  Run.log (.macroExpanded m.name arguments)
  inner (m.instantiate arguments)

/-- Expand the first macro call in the code of a line, to the end of the line. -/
def expandLine (inner : Text → Step Text) (line : Text) : Step Text := do
  let p ← Run.get
  match Scan.findInCode? (fun w => (p.macros.find? w).isSome) line with
  | none      => pure line
  | some site =>
    match p.macros.find? site.word with
    | none   => pure line
    | some m => do
      let expansion ← expandCall inner m site.after
      pure (site.before ++ expansion)

/-- Process an included file, which is on the stack meanwhile. -/
def includeFile (settings : Settings) (inner : Option Path → Text → Step Text)
    (file : Option Path) (rest : Text) : Step (Text × Text) := do
  let (name, suffix) ← unframed (Expansion.lift (Expansion.readIncludeName rest))
  let path ← unframed (Expansion.locate settings file (Path.ofText name))
  let place := settings.files.absolute path
  let p ← Run.get
  if p.stack.contains place then Run.throw { fault := .selfInclusion name }
  else do
    let content ← unframed (settings.files.readSource path settings.encoding)
    let processed ← pushing place ((inner (some path) content).mapError (·.within path.fileName))
    Run.log (.fileIncluded path.text processed.length)
    pure (processed, suffix)

/-- Define a macro. The lines of the definition become empty. -/
def defineMacro (inner : Text → Step Text) (line : Nat) (header : Text)
    (body : Option MacroBody) : Step Text := do
  let (m, b) ← unframed (Expansion.lift (Expansion.readMacro line header body))
  Run.modify fun p => { p with macros := p.macros.insert m }
  Run.log (.macroDefined m.name m.parameters b.lines.length)
  let suffix ← expandLine inner b.stop.after
  pure (List.replicate b.height '\n' ++ suffix)

/-- Process what a directive stands for. -/
def resolve (settings : Settings) (inner : Option Path → Text → Step Text) (file : Option Path)
    (site : Scan.WordSite) : Option Directive → Step Text
  | some .includeFile => do
    let (content, rest) ← includeFile settings inner file site.after
    let suffix ← expandLine (inner file) rest
    pure (content ++ suffix)
  | some .eqv         => do
    let _ ← unframed (Expansion.lift (readDefinition site.after))
    pure (site.word ++ site.after)
  | _                 => Run.throw { fault := .strayEndMacro }

/-- Process the block on a line. -/
def processBlock (settings : Settings) (inner : Option Path → Text → Step Text)
    (file : Option Path) (line : Nat) : Block → Step Text
  | .plain text           => expandLine (inner file) text
  | .directive d site     => do
    let before ← expandLine (inner file) site.before
    Run.log (Expansion.resolved line site)
    let replacement ← resolve settings inner file site d
    pure (before ++ replacement)
  | .definition site body => do
    let before ← expandLine (inner file) site.before
    Run.log (Expansion.resolved line site)
    let replacement ← defineMacro (inner file) line site.after body
    pure (before ++ replacement)

/-- Process blocks in order. -/
def processBlocks (settings : Settings) (inner : Option Path → Text → Step Text)
    (file : Option Path) : List (Nat × Block) → Step (List Text)
  | []                  => pure []
  | (line, block) :: bs => do
    let chunk ← (processBlock settings inner file line block).mapError (·.atLine line)
    let chunks ← processBlocks settings inner file bs
    pure (chunk :: chunks)

/-- Process a text with a number of levels left. -/
def processText (settings : Settings) : (levels : Nat) → Option Path → Text → Step Text
  | 0,          _,    _    => Run.throw { fault := .tooDeep settings.maxDepth }
  | levels + 1, file, text => do
    let chunks ← processBlocks settings (processText settings levels) file (Block.ofText text)
    pure (Text.joinLines chunks)

/-! ### Symbols in place -/

/-- Replace the words of lines by what the symbols stand for, which change from line to line. -/
def replaceLines : List UnitLine → Step (List Text)
  | []                              => pure []
  | .text line :: lines             => do
    let p ← Run.get
    let out ← replaceLines lines
    pure (Scan.replaceInCode p.symbols.replacement line :: out)
  | .definition before s r :: lines => do
    let p ← Run.get
    Run.modify fun p => { p with symbols := p.symbols.insert s r }
    let out ← replaceLines lines
    pure (Scan.replaceInCode p.symbols.replacement before :: out)

/-- Replace the symbols of a unit. Where there are no definitions, the symbols of an earlier unit
stay, and nothing is replaced. -/
def applySymbols (text : Text) : Step Text := do
  let lines ← UnitLine.readAll [] text.lines
  if lines.any UnitLine.isDefinition then do
    Run.modify fun p => { p with symbols := UnitLine.firstSymbols lines }
    let out ← replaceLines lines
    pure (Text.joinLines out)
  else
    pure text

/-- The places of the source of a text, if it has one. -/
def sourcePlaces (settings : Settings) : List (List Text) :=
  (settings.source.map settings.files.absolute).toList

/-- Expand a text with its source on the stack, and replace its symbols. -/
def processSource (settings : Settings) (text : Text) : Step Text := do
  Run.modify fun p => { p with stack := sourcePlaces settings ++ p.stack }
  let unit ← processText settings settings.levels settings.source text
  applySymbols unit

/-- Preprocess a text. In the end the stack is cleared. -/
def process (settings : Settings) (text : Text) : Step Text :=
  clearing (processSource settings text)

/-! ### Steps under a stack -/

section

variable {x : List (List Text) → Expansion α} {y : Step α} {f : α → List (List Text) → Expansion β}
  {g : α → Step β}

/-- Steps one after the other have the same stack. -/
lemma bind_eq_framed (hy : y = framed x) (hg : ∀ a, g a = framed (f a)) :
    y >>= g = framed fun stack => x stack >>= fun a => f a stack := by
  obtain rfl := hy
  obtain rfl : g = fun a => framed (f a) := funext hg
  funext p
  show Run.bind (framed x) _ p =
    (let o := Run.bind (x p.stack) (fun a => f a p.stack) p.macros
     (⟨o.result, { p with macros := o.state }, o.events⟩ : Outcome _ _ _))
  unfold Run.bind framed Run.run
  dsimp only
  -- a step that fails ends both alike, and one that succeeds hands the same stack on
  rcases x p.stack p.macros with ⟨_ | a, m, events⟩ <;> rfl

lemma unframed_bind {x : Expansion α} (hg : ∀ a, g a = framed (f a)) :
    unframed x >>= g = framed fun stack => x >>= fun a => f a stack :=
  bind_eq_framed rfl hg

lemma log_bind {e : Event} {y : Step β} {x : List (List Text) → Expansion β}
    (hy : y = framed x) :
    (Run.log e >>= fun _ => y) = framed fun stack => Run.log e >>= fun _ => x stack :=
  bind_eq_framed (x := fun _ => Run.log e) rfl fun _ => hy

/-- Macros are read from the state. -/
lemma get_bind_macros {f : MacroTable → List (List Text) → Expansion β} {g : Preprocessor → Step β}
    (hg : ∀ p, g p = framed (f p.macros)) :
    Run.get >>= g = framed fun stack => Run.get >>= fun macros => f macros stack := by
  obtain rfl : g = fun p => framed (f p.macros) := funext hg
  rfl

/-- Which of two steps is next depends on the stack. -/
lemma get_bind_ite (c : List (List Text) → Bool) {y' : Step α}
    {x' : List (List Text) → Expansion α} (hy : y = framed x) (hy' : y' = framed x') :
    (Run.get >>= fun p => if c p.stack then y else y') =
      framed fun stack => if c stack then x stack else x' stack := by
  rw [hy, hy']
  funext p
  show (if c p.stack then framed x else framed x') p =
    (framed fun _ => if c p.stack then x p.stack else x' p.stack) p
  cases c p.stack <;> rfl

/-- What is done with a file on the stack. -/
lemma pushing_framed (place : List Text) (hy : y = framed x) :
    pushing place y = framed fun stack => x (place :: stack) := by
  rw [hy]
  rfl

lemma mapError_framed (e : Diagnostic → Diagnostic) (hy : y = framed x) :
    y.mapError e = framed fun stack => (x stack).mapError e := by
  rw [hy]
  rfl

end

/-! ### The expansion is the same -/

section

variable {settings : Settings} {inner : Text → Step Text}
  {inner' : List (List Text) → Text → Expansion Text}

lemma expandCall_eq (h : ∀ text, inner text = framed (inner' · text)) (m : Macro) (rest : Text) :
    expandCall inner m rest = framed fun stack => Expansion.expandCall (inner' stack) m rest :=
  unframed_bind fun _ => log_bind (h _)

lemma expandLine_eq (h : ∀ text, inner text = framed (inner' · text)) (line : Text) :
    expandLine inner line = framed fun stack => Expansion.expandLine (inner' stack) line := by
  refine get_bind_macros fun p => ?_
  cases Scan.findInCode? (fun w => (p.macros.find? w).isSome) line with
  | none => rfl
  | some site =>
    dsimp only
    cases p.macros.find? site.word with
    | none => rfl
    | some m => exact bind_eq_framed (expandCall_eq h m site.after) fun _ => rfl

lemma defineMacro_eq (h : ∀ text, inner text = framed (inner' · text)) (line : Nat)
    (header : Text) (body : Option MacroBody) :
    defineMacro inner line header body =
      framed fun stack => Expansion.defineMacro (inner' stack) line header body := by
  refine unframed_bind fun ⟨m, b⟩ => ?_
  refine bind_eq_framed (x := fun _ => Run.modify (·.insert m)) rfl fun _ => ?_
  refine log_bind ?_
  exact bind_eq_framed (expandLine_eq h _) fun _ => rfl

end

section

variable {settings : Settings} {inner : Option Path → Text → Step Text}
  {inner' : Frame → Text → Expansion Text}

lemma includeFile_eq
    (h : ∀ file text, inner file text = framed fun stack => inner' ⟨file, stack⟩ text)
    (file : Option Path) (rest : Text) :
    includeFile settings inner file rest =
      framed fun stack => Expansion.includeFile settings inner' ⟨file, stack⟩ rest := by
  refine unframed_bind fun ⟨name, suffix⟩ => ?_
  refine unframed_bind fun path => ?_
  dsimp only
  refine get_bind_ite (·.contains (settings.files.absolute path)) rfl ?_
  refine unframed_bind fun content => ?_
  exact bind_eq_framed (pushing_framed _ (mapError_framed _ (h _ content))) fun processed => rfl

lemma resolve_eq (h : ∀ file text, inner file text = framed fun stack => inner' ⟨file, stack⟩ text)
    (file : Option Path) (site : Scan.WordSite) (d : Option Directive) :
    resolve settings inner file site d =
      framed fun stack => Expansion.resolve settings inner' ⟨file, stack⟩ site d := by
  cases d with
  | none => rfl
  | some d =>
    cases d with
    | includeFile =>
      refine bind_eq_framed (includeFile_eq h file _) fun ⟨content, rest⟩ => ?_
      exact bind_eq_framed (expandLine_eq (h file) _) fun _ => rfl
    | eqv => exact unframed_bind fun _ => rfl
    | _ => rfl

lemma processBlock_eq
    (h : ∀ file text, inner file text = framed fun stack => inner' ⟨file, stack⟩ text)
    (file : Option Path) (line : Nat) (b : Block) :
    processBlock settings inner file line b =
      framed fun stack => Expansion.processBlock settings inner' ⟨file, stack⟩ line b := by
  cases b with
  | plain text => exact expandLine_eq (h file) text
  | directive d site =>
    refine bind_eq_framed (expandLine_eq (h file) _) fun before => log_bind ?_
    exact bind_eq_framed (resolve_eq h file site d) fun _ => rfl
  | definition site body =>
    refine bind_eq_framed (expandLine_eq (h file) _) fun before => log_bind ?_
    exact bind_eq_framed (defineMacro_eq (h file) line _ body) fun _ => rfl

lemma processBlocks_eq
    (h : ∀ file text, inner file text = framed fun stack => inner' ⟨file, stack⟩ text)
    (file : Option Path) (bs : List (Nat × Block)) :
    processBlocks settings inner file bs =
      framed fun stack => Expansion.processBlocks settings inner' ⟨file, stack⟩ bs := by
  induction bs with
  | nil => rfl
  | cons p bs ih =>
    obtain ⟨line, b⟩ := p
    refine bind_eq_framed (mapError_framed _ (processBlock_eq h file line b)) fun chunk => ?_
    exact bind_eq_framed ih fun _ => rfl

/-- With the stack in the state a text is processed as it is under a frame. -/
lemma processText_eq (levels : Nat) (file : Option Path) (text : Text) :
    processText settings levels file text =
      framed fun stack => Expansion.processText settings levels ⟨file, stack⟩ text := by
  induction levels generalizing file text with
  | zero => rfl
  | succ levels ih => exact bind_eq_framed (processBlocks_eq ih file _) fun _ => rfl

end

/-! ### The symbols are the same -/

/-- The lines of a unit are read without a state. -/
lemma readAll_eq_embed {σ : Type} (above : SymbolTable) (lines : List Text) :
    (UnitLine.readAll above lines : Run σ Diagnostic _) =
      Run.embed (UnitLine.readAll above lines) () := by
  induction lines generalizing above with
  | nil => rfl
  | cons line lines ih =>
    rw [UnitLine.readAll, UnitLine.readAll]
    cases UnitLine.definitionSite? line with
    | none =>
      dsimp only
      rw [Run.embed_bind, ih]
      rfl
    | some site =>
      dsimp only
      rw [Run.embed_bind]
      refine congrArg (_ >>= ·) (funext fun ⟨symbol, raw⟩ => ?_)
      dsimp only
      rw [Run.embed_bind]
      refine congrArg (_ >>= ·) (funext fun _ => ?_)
      rw [Run.embed_bind, ih]
      rfl

lemma run_readAll (above : SymbolTable) (lines : List Text) :
    ∃ result events, ∀ {σ : Type} (s : σ),
      (UnitLine.readAll above lines).run s = ⟨result, s, events⟩ := by
  let o := (UnitLine.readAll above lines).run ()
  refine ⟨o.result, o.events, fun s => ?_⟩
  rw [readAll_eq_embed]
  rfl

/-- The words of lines are replaced as with a table that is passed on. -/
lemma run_replaceLines (lines : List UnitLine) (p : Preprocessor) :
    (replaceLines lines).run p =
      ⟨.ok (UnitLine.replaceAll p.symbols lines).1,
        { p with symbols := (UnitLine.replaceAll p.symbols lines).2 }, []⟩ := by
  induction lines generalizing p with
  | nil => rfl
  | cons line lines ih =>
    cases line with
    | text line =>
      rw [replaceLines, Run.run_bind_of_ok (Run.run_get p), Run.run_bind_of_ok (ih p)]
      rfl
    | definition before symbol value =>
      rw [replaceLines, Run.run_bind_of_ok (Run.run_get p),
        Run.run_bind_of_ok (Run.run_modify _ p), Run.run_bind_of_ok (ih _)]
      rfl

/-- What the lines of a unit come to. -/
def replaced (unit : Text) (lines : List UnitLine) : Text × Option SymbolTable :=
  if lines.any UnitLine.isDefinition then
    let (out, last) := UnitLine.replaceAll (UnitLine.firstSymbols lines) lines
    (Text.joinLines out, some last)
  else (unit, none)

lemma run_replaceSymbols_of_ok {unit : Text} {lines : List UnitLine} {events : List Event}
    {σ : Type} {s : σ} (h : (UnitLine.readAll [] unit.lines).run s = ⟨.ok lines, s, events⟩) :
    (replaceSymbols unit).run s = ⟨.ok (replaced unit lines), s, events ++ []⟩ := by
  rw [replaceSymbols, Run.run_bind_of_ok h, replaced]
  cases lines.any UnitLine.isDefinition <;> rfl

/-- Symbols are replaced without a state. -/
lemma run_replaceSymbols (unit : Text) :
    ∃ result events, ∀ {σ : Type} (s : σ), (replaceSymbols unit).run s = ⟨result, s, events⟩ := by
  obtain ⟨_ | lines, events, hread⟩ := run_readAll [] unit.lines
  · exact ⟨_, events, fun s => by rw [replaceSymbols, Run.run_bind_of_error (hread s)]⟩
  · exact ⟨_, events ++ [], fun s => run_replaceSymbols_of_ok (hread s)⟩

/-- The symbols of a unit are replaced as a session replaces them. -/
lemma applySymbols_eq (unit : Text) :
    applySymbols unit =
      Run.focus toSession (fun s p => { p with toSession := s }) (Session.replace unit) := by
  funext p
  show (applySymbols unit).run p =
    (let o := (Session.replace unit).run p.toSession
     (⟨o.result, { p with toSession := o.state }, o.events⟩ : Outcome _ _ _))
  obtain ⟨_ | lines, events, hread⟩ := run_readAll [] unit.lines
  · rw [applySymbols, Session.replace, replaceSymbols, Run.run_bind_of_error (hread p),
      Run.run_bind_of_error (Run.run_bind_of_error (hread _))]
  · rw [applySymbols, Run.run_bind_of_ok (hread p), Session.replace,
      Run.run_bind_of_ok (run_replaceSymbols_of_ok (hread p.toSession)), replaced]
    -- only a unit with definitions changes the symbols
    cases lines.any UnitLine.isDefinition with
    | false => simp
    | true =>
      have hmodify : (Run.modify fun p => { p with symbols := UnitLine.firstSymbols lines } :
          Step Unit).run p = ⟨.ok (), { p with symbols := UnitLine.firstSymbols lines }, []⟩ := rfl
      rw [if_pos rfl, if_pos rfl, Run.run_bind_of_ok hmodify,
        Run.run_bind_of_ok (run_replaceLines lines _)]
      dsimp only
      rw [Run.run_bind_of_ok (Run.run_modify _ _)]
      simp

/-! ### Calls -/

lemma run_clearing {α : Type} {x : Step α} {p p' : Preprocessor} {result : Except Diagnostic α}
    {events : List Event} (h : x.run p = ⟨result, p', events⟩) :
    (clearing x).run p = ⟨result, { p' with stack := [] }, events⟩ := by
  have h : x p = ⟨result, p', events⟩ := h
  show (let o := x p; (⟨o.result, { o.state with stack := [] }, o.events⟩ : Outcome _ _ _)) = _
  rw [h]

/-- With nothing else on the stack, a text is processed under its source. -/
lemma run_processSource (settings : Settings) (text : Text) {p : Preprocessor}
    (hp : p.stack = []) :
    let o := (Session.process settings text).run p.toSession
    (processSource settings text).run p =
      ⟨o.result, ⟨o.state, sourcePlaces settings⟩, o.events⟩ := by
  obtain ⟨s, _⟩ := p
  obtain rfl : _ = [] := hp
  let stack := sourcePlaces settings
  have hpush : (Run.modify fun p => { p with stack := sourcePlaces settings ++ p.stack } :
      Step Unit).run ⟨s, []⟩ = ⟨.ok (), ⟨s, stack⟩, []⟩ := by
    rw [Run.run_modify, List.append_nil]
  have hunit : (processText settings settings.levels settings.source text).run ⟨s, stack⟩ =
      (let o := (Expansion.expand settings text).run s.macros
       (⟨o.result, ⟨{ s with macros := o.state }, stack⟩, o.events⟩ : Outcome _ _ _)) := by
    rw [processText_eq]
    rfl
  have hsession := Session.run_onMacros (Expansion.expand settings text) s
  -- the expansion ends alike with a stack and in a frame; then its failure or its unit is passed on
  generalize (Expansion.expand settings text).run s.macros = o at hunit hsession
  obtain ⟨_ | unit, macros, events⟩ := o
  · rw [Session.process_eq, Run.run_bind_of_error hsession, processSource,
      Run.run_bind_of_ok hpush, Run.run_bind_of_error hunit]
    rfl
  · rw [Session.process_eq, Run.run_bind_of_ok hsession, processSource,
      Run.run_bind_of_ok hpush, Run.run_bind_of_ok hunit, applySymbols_eq]
    rfl

/-- A call is the call of a session. It leaves no file on the stack, whether or not it succeeds. -/
lemma run_process (settings : Settings) (text : Text) {p : Preprocessor} (hp : p.stack = []) :
    let o := (Session.process settings text).run p.toSession
    (process settings text).run p = ⟨o.result, ⟨o.state, []⟩, o.events⟩ :=
  run_clearing (run_processSource settings text hp)

/-- Only the macros of a session matter to a call. -/
lemma run_session_congr (settings : Settings) (text : Text) {s t : Session}
    (h : s.macros = t.macros) :
    let o := (Session.process settings text).run s
    let o' := (Session.process settings text).run t
    o.result = o'.result ∧ o.state.macros = o'.state.macros ∧ o.events = o'.events := by
  have hs := Session.run_onMacros (Expansion.expand settings text) s
  have ht := Session.run_onMacros (Expansion.expand settings text) t
  rw [← h] at ht
  generalize (Expansion.expand settings text).run s.macros = o at hs ht
  rw [Session.process_eq]
  obtain ⟨_ | unit, macros, events⟩ := o
  · rw [Run.run_bind_of_error hs, Run.run_bind_of_error ht]
    exact ⟨rfl, rfl, rfl⟩
  · rw [Run.run_bind_of_ok hs, Run.run_bind_of_ok ht, Session.replace]
    -- the unit is the same, and its symbols are replaced without those of an earlier one
    obtain ⟨_ | ⟨out, _ | symbols⟩, events', hreplace⟩ := run_replaceSymbols unit
    · rw [Run.run_bind_of_error (hreplace _), Run.run_bind_of_error (hreplace _)]
      exact ⟨rfl, rfl, rfl⟩
    · rw [Run.run_bind_of_ok (hreplace _), Run.run_bind_of_ok (hreplace _)]
      exact ⟨rfl, rfl, rfl⟩
    · rw [Run.run_bind_of_ok (hreplace _), Run.run_bind_of_ok (hreplace _)]
      exact ⟨rfl, rfl, rfl⟩

/-- A preprocessor after calls, each with the files that there are then. -/
def afterCalls (settings : Settings) (calls : List (Files × Text)) : Preprocessor :=
  calls.foldl (fun p (files, text) => ((process { settings with files } text).run p).state) {}

/-- After every call the stack is empty. -/
lemma stack_afterCalls (settings : Settings) (calls : List (Files × Text)) :
    (afterCalls settings calls).stack = [] := by
  -- the last call clears the stack, whatever the calls before it have left
  rcases List.eq_nil_or_concat calls with rfl | ⟨earlier, call, rfl⟩
  · rfl
  · rw [List.concat_eq_append, afterCalls, List.foldl_append]
    rfl

/-- Calls have to do with each other through macros only. Whatever calls a preprocessor has behind
it, successful or not, its stack is empty, and the next call comes to what it comes to in a new
preprocessor that has its macros. That is what it comes to in a session with these macros. -/
theorem process_after_calls (settings : Settings) (calls : List (Files × Text)) (files : Files)
    (text : Text) :
    let p := afterCalls settings calls
    let next := process { settings with files } text
    p.stack = [] ∧
    (next.run p).result = (next.run { macros := p.macros }).result ∧
    (next.run p).state.macros = (next.run { macros := p.macros }).state.macros ∧
    (next.run p).events = (next.run { macros := p.macros }).events ∧
    let o := (Session.process { settings with files } text).run { macros := p.macros }
    (next.run p).result = o.result ∧ (next.run p).state.macros = o.state.macros ∧
    (next.run p).events = o.events := by
  intro p next
  have hstack : p.stack = [] := stack_afterCalls settings calls
  have hnext := run_process { settings with files } text hstack
  have hnew := run_process { settings with files } text (p := { macros := p.macros }) rfl
  obtain ⟨hresult, hmacros, hevents⟩ := run_session_congr { settings with files } text
    (s := p.toSession) (t := { macros := p.macros }) rfl
  dsimp only [next]
  rw [hnext, hnew]
  exact ⟨hstack, hresult, hmacros, hevents, hresult, hmacros, hevents⟩

/-- A file that holds a text. -/
def fileX (content : String) : Files :=
  (FileTree.mk [] [([['x']], .file content.toUTF8.toList)]).files

-- the first call defines a symbol, the second fails within the file, and the third includes it
example :
    ((process { files := fileX "A" } ".include x".toList).run
      (afterCalls { files := fileX "" } [(fileX "", ".eqv A B".toList),
        (fileX ".end_macro", ".eqv A C\n.include x".toList)])).result = .ok "A".toList := by
  decide +kernel

end Preprocessor

end MipsAsm
