import MipsAsm.Proofs.Preprocess.Settled

/-!
# Texts without directives

Preprocessing leaves no directive behind, unless one escapes the search on the way to the expanded
unit or is the value of a symbol, which is not looked at again (`Session.process_directiveFree`).
-/

namespace MipsAsm

open Run

/-! ### Replaced symbols -/

namespace UnitLine

/-- What is kept of a settled line holds no directive. -/
lemma ReadAs.findDirective?_kept {above : List UnitLine} {line : Text} {unit : UnitLine}
    (h : ReadAs above line unit) (hline : IsSettled line) : findDirective? unit.kept = none := by
  rw [ReadAs] at h
  cases hsite : definitionSite? line with
  | none =>
    rw [hsite] at h
    subst h
    cases hfirst : findDirective? line with
    | none => exact hfirst
    | some site =>
      rw [definitionSite?, hfirst, Option.filter_some, if_pos (decide_eq_true (hline site hfirst))]
        at hsite
      cases hsite
  | some site =>
    rw [hsite] at h
    obtain ⟨symbol, raw, -, rfl⟩ := h
    exact findDirective?_before (Option.eq_some_of_filter_eq_some hsite)

lemma ReadAllAs.findDirective?_kept {above units : List UnitLine} {lines : List Text}
    (h : ReadAllAs above lines units) (hlines : ∀ line ∈ lines, IsSettled line) :
    ∀ unit ∈ units, findDirective? unit.kept = none := by
  induction h with
  | nil => simp
  | cons hread _ ih =>
    rw [List.forall_mem_cons] at hlines ⊢
    exact ⟨hread.findDirective?_kept hlines.1, ih hlines.2⟩

/-- The values that take the place of words in the code of a unit leave no literal open, and hold no
directive in their own code. -/
def ReplacesInertly (units : List UnitLine) : Prop :=
  ∀ i, ∀ h : i < units.length, ∀ w ∈ Scan.codeWords units[i].kept,
    meaning units i w = w ∨ Scan.Inert spellsDirective (meaning units i w)

instance (units : List UnitLine) : Decidable (ReplacesInertly units) :=
  inferInstanceAs (Decidable (∀ i, ∀ h : i < units.length, ∀ w ∈ Scan.codeWords units[i].kept,
    meaning units i w = w ∨ Scan.Inert spellsDirective (meaning units i w)))

end UnitLine

namespace Session

open Expansion

/-- No directive escapes while a text is preprocessed. -/
structure Tidy (settings : Settings) (text : Text) (s : Session) : Prop where
  /-- None escapes the search in the text and in all that it comes to. -/
  texts (depth : Nat) (v : Visit) (h : Comes settings text s settings.levels depth v) :
    v.Tidy settings (settings.levels - depth)
  /-- None comes into being with the value of a symbol. -/
  values (unit : Text) (m : MacroTable) (units : List UnitLine)
    (h : Yields (expand settings text) s.macros unit m)
    (hread : UnitLine.ReadAllAs [] unit.lines units) : UnitLine.ReplacesInertly units

/-- Preprocessing leaves no directive behind where none escapes: a directive is left only behind the
name of a file or the end of a macro, where two texts meet within a literal or a word, or as the
value of a symbol. -/
theorem process_directiveFree {settings : Settings} {text out : Text} {s : Session}
    (htidy : Tidy settings text s) (hout : ((process settings text).run s).result = .ok out) :
    ∀ line ∈ out.lines, findDirective? line = none := by
  obtain ⟨unit, m, symbols, s₁, s₂, hexpand, hreplace⟩ := unit_of_process hout
  obtain ⟨units, hread, -, hlines⟩ := UnitLine.lines_of_replaceSymbols hreplace
  have hsettled : Settled unit :=
    settled_of_yields (v := ⟨settings.outermost, text, s.macros⟩) htidy.texts hexpand
  intro line hline
  obtain ⟨i, hi⟩ := List.getElem?_of_mem hline
  rw [hlines] at hi
  obtain ⟨u, hu, rfl⟩ := Option.map_eq_some_iff.mp hi
  have hkept := hread.findDirective?_kept hsettled u (List.mem_of_getElem? hu)
  obtain ⟨hlt, rfl⟩ := List.getElem?_eq_some_iff.mp hu
  rw [findDirective?_eq] at hkept ⊢
  exact Scan.findInCode?_replaceInCode (htidy.values unit m units hexpand hread i hlt)
    (Text.newline_not_mem_of_mem_lines hline) hkept

/-- A call in front of a definition, and directives in a comment and in the value of a symbol. -/
def quotedDirective : Text :=
  ".macro f\nnop \n.end_macro # .macro\nf .eqv E \".macro\"\nE".toList

/-- The macro that `quotedDirective` defines and calls. -/
def trailingBlank : Macro := ⟨['f'], [], "nop ".toList, 1⟩

lemma ofText_quotedDirective : Block.ofText quotedDirective =
    [(1, .definition ⟨[], ".macro".toList, " f".toList⟩
      (some ⟨["nop ".toList], ⟨[], ".end_macro".toList, " # .macro".toList⟩⟩)),
     (4, .directive (some .eqv) ⟨"f ".toList, ".eqv".toList, " E \".macro\"".toList⟩),
     (5, .plain ['E'])] := by
  decide +kernel

/-- `quotedDirective` comes to nothing but the text that its call expands to. -/
lemma comes_quotedDirective {depth : Nat} {v : Visit}
    (h : Comes (withoutFiles 16) quotedDirective {} 17 depth v) :
    (depth = 0 ∧ v = ⟨⟨none, []⟩, quotedDirective, []⟩) ∨
    (depth = 1 ∧ v = ⟨⟨none, []⟩, "nop ".toList, [trailingBlank]⟩) := by
  induction h with
  | self => exact .inl ⟨rfl, rfl⟩
  | step h hasks hw ih =>
    rcases ih with ⟨rfl, rfl⟩ | ⟨rfl, rfl⟩
    · have hasks : BlocksAsk _ _ _ _ (Block.ofText quotedDirective) _ _ := hasks
      rw [ofText_quotedDirective] at hasks
      cases hasks with
      | here h =>
        cases h with
        | beforeDefinition h => exact absurd h (not_lineCalls (by decide +kernel))
        | afterDefinition _ hread h =>
          obtain rfl := readMacro_body hread
          exact absurd h (not_lineCalls rfl)
      -- below the definition the macro is known, and the second line calls it
      | later hb h =>
        obtain rfl := hb.2.symm.trans (by decide +kernel : _ = [trailingBlank])
        cases h with
        | here h =>
          cases h with
          | before h =>
            obtain ⟨site, m, arguments, hsite, hm, harguments, rfl⟩ := h
            obtain rfl := Option.some.inj (hsite.symm.trans
              (by decide +kernel : _ = some ⟨[], ['f'], [' ']⟩))
            obtain rfl := Option.some.inj (hm.symm.trans
              (by decide +kernel : _ = some trailingBlank))
            cases hw
            exact .inr ⟨rfl, rfl⟩
        | later hb h =>
          obtain rfl := hb.2.symm.trans (by decide +kernel : _ = [trailingBlank])
          rcases h with ⟨⟨hcalls⟩⟩ | ⟨-, ⟨⟩⟩
          exact absurd hcalls (not_lineCalls (by decide +kernel))
    · -- the expansion asks for nothing
      have hasks : BlocksAsk _ _ _ _ (Block.ofText "nop ".toList) _ _ := hasks
      rw [show Block.ofText "nop ".toList = [(1, .plain "nop ".toList)] by decide +kernel] at hasks
      rcases hasks with ⟨⟨hcalls⟩⟩ | ⟨-, ⟨⟩⟩
      exact absurd hcalls (not_lineCalls (by decide +kernel))

lemma tidy_quotedDirective : Tidy (withoutFiles 16) quotedDirective {} where
  texts depth v h := by
    rcases comes_quotedDirective h with ⟨rfl, rfl⟩ | ⟨rfl, rfl⟩
    · show BlocksTidy _ _ _ _ (Block.ofText quotedDirective)
      rw [ofText_quotedDirective]
      refine ⟨fun before s₁ m hbefore hread => ?_, fun chunk s₁ hfirst => ?_⟩
      · exact isSettled_beforeCall (isSettled_of_none (by decide +kernel)) _
      obtain rfl := hfirst.2.symm.trans (by decide +kernel : _ = [trailingBlank])
      refine ⟨fun before s₁ hbefore => ?_, fun chunk s₁ hsecond => ⟨trivial, fun _ _ _ => trivial⟩⟩
      obtain rfl := Except.ok.inj (hbefore.1.symm.trans
        (by decide +kernel : _ = Except.ok "nop ".toList))
      exact .inr (.inr ⟨by decide +kernel, .inl (by decide +kernel)⟩)
    · show BlocksTidy _ _ _ _ (Block.ofText "nop ".toList)
      rw [show Block.ofText "nop ".toList = [(1, .plain "nop ".toList)] by decide +kernel]
      exact ⟨trivial, fun _ _ _ => trivial⟩
  values unit m units h hread := by
    obtain rfl := Except.ok.inj (h.1.symm.trans
      (by decide +kernel : _ = Except.ok "\n\n # .macro\nnop .eqv E \".macro\"\nE".toList))
    have hread' : UnitLine.ReadAllAs []
        (Text.lines "\n\n # .macro\nnop .eqv E \".macro\"\nE".toList)
        [.text [], .text [], .text " # .macro".toList,
          .definition "nop ".toList ['E'] "\".macro\"".toList, .text ['E']] :=
      UnitLine.readAllAs_of_yields (σ := Unit) (s := ()) ⟨by decide +kernel, rfl⟩
    obtain rfl := hread.unique hread'
    decide +kernel

theorem process_directiveFree_quotedDirective :
    Tidy (withoutFiles 16) quotedDirective {} ∧
    ((process (withoutFiles 16) quotedDirective).run {}).result =
      .ok "\n\n # .macro\nnop \n\".macro\"".toList ∧
    ∀ line ∈ Text.lines "\n\n # .macro\nnop \n\".macro\"".toList, findDirective? line = none := by
  have hout : ((process (withoutFiles 16) quotedDirective).run {}).result =
      .ok "\n\n # .macro\nnop \n\".macro\"".toList := by
    decide +kernel
  exact ⟨tidy_quotedDirective, hout, process_directiveFree tidy_quotedDirective hout⟩

/-- A text is preprocessed in a new session, and a directive is left. -/
def LeavesDirective (settings : Settings) (text : Text) : Prop :=
  ∃ out, ((process settings text).run {}).result = .ok out ∧
    ∃ line ∈ out.lines, (findDirective? line).isSome

/-- The value of a symbol is not looked at again, and nothing searches what stands behind the end of
a macro or behind the name of a file. Where the expansion of a call stands in front of a directive,
the two may make up another word, or a literal may hide the directive and end in front of another
one. -/
theorem process_leavesDirective :
    LeavesDirective (withoutFiles 16) ".eqv E .end_macro\nE".toList ∧
    LeavesDirective (withoutFiles 16) ".macro m\n.end_macro .macro n".toList ∧
    LeavesDirective besideNop ".include \"x\" .macro n".toList ∧
    LeavesDirective (withoutFiles 16) ".macro m\n.mac\n.end_macro\nm .eqv A .macro".toList ∧
    LeavesDirective (withoutFiles 16) ".macro m\n\"\n.end_macro\nm .eqv A \" .macro".toList := by
  refine ⟨⟨"\n.end_macro".toList, by decide +kernel⟩, ⟨"\n .macro n".toList, by decide +kernel⟩,
    ⟨"nop .macro n".toList, by decide +kernel⟩,
    ⟨"\n\n\n.mac.eqv A .macro".toList, by decide +kernel⟩,
    ⟨"\n\n\n\".eqv A \" .macro".toList, by decide +kernel⟩⟩

end Session

end MipsAsm
