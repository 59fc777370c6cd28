import MipsAsm.Proofs.Macro.Argument
import MipsAsm.Proofs.Preprocess.Request

/-!
# Forms of a call

The arguments of a macro call stand between parentheses, or else go to the end of the line or to a
comment. A list of arguments that is written with parentheses is read again
(`Macro.splitArguments_joined`), and without them it is read alike, unless it begins with a
parenthesis of its own (`Expansion.expandCall_bare`).
-/

namespace MipsAsm

namespace Macro

/-- Arguments between parentheses. -/
def parenthesised (as : List Text) : Text := '(' :: Text.joined [',', ' '] as ++ [')']

/-- Arguments without parentheses. -/
def bare (as : List Text) : Text := ' ' :: Text.joined [',', ' '] as

/-- Arguments that are told apart by the commas between them: several ones that commas can stand
around, or any number of those that even blanks can stand around. -/
def Separable (as : List Text) : Prop :=
  (2 ≤ as.length ∧ ∀ a ∈ as, WellFormed a) ∨ ∀ a ∈ as, Compact a

section

variable {as : List Text} {t : Text}

lemma Separable.wellFormed (h : Separable as) : ∀ a ∈ as, WellFormed a := by
  rcases h with ⟨-, h⟩ | h
  · exact h
  · exact fun a ha => (h a ha).toWellFormed

lemma Separable.splitArguments (h : Separable as) :
    splitArguments (Text.joined [',', ' '] as) = as := by
  rcases h with ⟨hlength, h⟩ | h
  · exact splitArguments_joined_comma hlength h
  · match as with
    -- without a comma the text is cut at blanks, and with one at commas
    | [] => rfl
    | [a] => exact splitArguments_joined_blank h
    | a :: b :: as =>
      exact splitArguments_joined_comma (Nat.le_add_left 2 _) fun x hx => (h x hx).toWellFormed

lemma complete_joined (h : ∀ a ∈ as, WellFormed a) :
    Scan.Complete (Text.joined [',', ' '] as) := by
  have hsep : Enclosed [',', ' '] :=
    enclosed_cons (by decide) (by decide) (by decide) (enclosed_blanks Text.isBlank_of_mem_space)
  exact (enclosed_joined (p := fun _ => True) hsep (fun _ _ => trivial)
    fun a ha => ⟨(h a ha).enclosed, fun _ _ => trivial⟩).1.toComplete

/-! ### The text of a call -/

lemma beforeLast?_append_singleton (c : Char) (t : Text) : beforeLast? c (t ++ [c]) = some t := by
  induction t with
  | nil => simp [beforeLast?]
  | cons d t ih => rw [List.cons_append, beforeLast?, ih]

/-- What stands between parentheses is the text of the call, whatever a comment behind them says. -/
lemma callText?_parenthesised (ht : Scan.Complete t) {blanks comment : Text}
    (hblanks : ∀ c ∈ blanks, isBlank c) (hcomment : ∀ c ∈ comment.head?, c = '#') :
    callText? ('(' :: t ++ [')'] ++ (blanks ++ comment)) = some t := by
  have hcall : Scan.Complete ('(' :: t ++ [')']) :=
    (Scan.complete_cons (by decide) ht).append (Scan.complete_cons (by decide) Scan.complete_nil)
  have hstrip : Scan.stripComment comment = [] := by
    cases comment with
    | nil => rfl
    | cons c r =>
      rw [hcomment c rfl]
      rfl
  have htrim : Text.trim ('(' :: t ++ [')'] ++ blanks) = '(' :: (t ++ [')']) := by
    rw [Text.trim_append hblanks]
    refine Text.trim_eq_self_iff.mpr ⟨?_, ?_⟩
    · rintro _ ⟨⟩
      decide
    · rw [List.getLast?_concat]
      rintro _ ⟨⟩
      decide
  rw [callText?, hcall.stripComment_append,
    (enclosed_blanks hblanks).toComplete.stripComment_append, hstrip, List.append_nil, htrim]
  exact beforeLast?_append_singleton ')' t

/-- What begins with no parenthesis is the text of the call to its end. -/
lemma callText?_of_head? (ht : Scan.Complete t) (htrim : t.trim = t)
    (hfirst : t.head? ≠ some '(') : callText? (' ' :: t) = some t := by
  have hcall : Scan.Complete (' ' :: t) := Scan.complete_cons (by decide) ht
  rw [callText?, hcall.stripComment_eq_self, ← List.singleton_append,
    Text.trim_blanks_append Text.isBlank_of_mem_space, htrim]
  split
  · exact absurd rfl hfirst
  · rfl

end

end Macro

namespace Expansion

open Macro

/-- Expand a macro with given arguments, and process the result with `inner`. -/
def expandWith (inner : Text → Expansion Text) (m : Macro) (as : List Text) : Expansion Text := do
  Run.log (.macroExpanded m.name as)
  inner (m.instantiate as)

section

variable {m : Macro} {as : List Text} {rest : Text}

lemma callArguments_of_callText? {t : Text} (ht : callText? rest = some t)
    (hsplit : splitArguments t = as) (hlength : as.length = m.parameters.length) :
    callArguments m rest = .ok as := by
  rw [callArguments, ht]
  dsimp only
  rw [hsplit, if_pos hlength]

lemma expandCall_of_callArguments (h : callArguments m rest = .ok as)
    (inner : Text → Expansion Text) : expandCall inner m rest = expandWith inner m as := by
  rw [expandCall, h]
  rfl

end

end Expansion

open Expansion Macro

/-! ### Calls with parentheses -/

/-- Arguments that are written one behind the other are read again: well formed ones with commas
between them, if there are several, and compact ones with blanks between them. A call that has such
a list between its parentheses, and nothing else in front of a comment, instantiates its macro with
exactly this list, if the macro has as many parameters. -/
theorem Macro.splitArguments_joined :
    (∀ as : List Text, 2 ≤ as.length → (∀ a ∈ as, WellFormed a) →
      splitArguments (Text.joined [',', ' '] as) = as) ∧
    (∀ as : List Text, (∀ a ∈ as, Compact a) → splitArguments (Text.joined [' '] as) = as) ∧
    ∀ (as : List Text) (m : Macro) (blanks comment : Text), Separable as →
      as.length = m.parameters.length → (∀ c ∈ blanks, isBlank c) →
      (∀ c ∈ comment.head?, c = '#') → ∀ inner : Text → Expansion Text,
        expandCall inner m (parenthesised as ++ (blanks ++ comment)) = expandWith inner m as ∧
        ∀ (macros : MacroTable) (line before : Text), macros.find? m.name = some m →
          Scan.findInCode? (fun w => (macros.find? w).isSome) line =
            some ⟨before, m.name, parenthesised as ++ (blanks ++ comment)⟩ →
          (expandLine inner line).run macros =
            (expandWith inner m as >>= fun out => pure (before ++ out)).run macros := by
  refine ⟨fun as => splitArguments_joined_comma, fun as => splitArguments_joined_blank, ?_⟩
  intro as m blanks comment has hlength hblanks hcomment inner
  have htext := callText?_parenthesised (complete_joined has.wellFormed) hblanks hcomment
  have harguments := callArguments_of_callText? htext has.splitArguments hlength
  have hcall := expandCall_of_callArguments harguments inner
  refine ⟨hcall, fun macros line before hm hsite => ?_⟩
  rw [run_expandLine_of_some hsite hm]
  exact Run.run_bind_congr (congrFun hcall macros) fun _ _ _ => rfl

/-- A macro that shows four arguments. -/
def showFour : Macro :=
  ⟨"show".toList, ["%a".toList, "%b".toList, "%c".toList, "%d".toList],
    "%d|%c|%b|%a".toList, 1⟩

/-- Commas, parentheses and comment signs in literals, a blank, and an argument of no characters. -/
theorem Macro.splitArguments_joined_quotes :
    let as := ["\"a, (#\\\"\"".toList, "4 + ($sp, 1)".toList, "','".toList, []]
    let bs := ["($t0, 1)".toList, "' '".toList]
    let call := parenthesised as ++ "\t# ), x".toList
    (∀ a ∈ as, WellFormed a) ∧ splitArguments (Text.joined [',', ' '] as) = as ∧
    (∀ b ∈ bs, Compact b) ∧ splitArguments (Text.joined [' '] bs) = bs ∧
    expandCall pure showFour call = expandWith pure showFour as ∧
    (expandLine pure ("x: show".toList ++ call)).run [showFour] =
      (expandWith pure showFour as >>= fun out => pure ("x: ".toList ++ out)).run [showFour] := by
  intro as bs call
  have has : ∀ a ∈ as, WellFormed a := by decide +kernel
  have hbs : ∀ b ∈ bs, Compact b := by decide +kernel
  have hsite : Scan.findInCode? (fun w => (MacroTable.find? [showFour] w).isSome)
      ("x: show".toList ++ call) = some ⟨"x: ".toList, showFour.name, call⟩ := by
    decide +kernel
  have hblanks_tab : ∀ c ∈ "\t".toList, isBlank c := List.all_eq_true.mp (by decide)
  have hcomment : ∀ c ∈ "# ), x".toList.head?, c = '#' := fun c hc => (Option.some.inj hc).symm
  obtain ⟨hcommas, hblanks, hcalls⟩ := splitArguments_joined
  obtain ⟨hcall, hline⟩ := hcalls as showFour "\t".toList "# ), x".toList
    (.inl ⟨by decide, has⟩) (by decide) hblanks_tab hcomment pure
  exact ⟨has, hcommas as (by decide) has, hbs, hblanks bs hbs, hcall,
    hline [showFour] _ _ (by decide +kernel) hsite⟩

/-! ### Calls without parentheses -/

lemma Macro.head?_joined {sep : Text} {as : List Text} (h : ∀ a ∈ as, a ≠ []) :
    (Text.joined sep as).head? = as.head?.bind List.head? := by
  match as with
  | [] => rfl
  | [a] => rfl
  | a :: b :: as =>
    rw [Text.joined, List.append_assoc, List.head?_append_of_ne_nil a (h a List.mem_cons_self)]
    rfl

/-- A list of compact arguments is read alike with parentheses around it and without, unless its
first argument begins with a parenthesis. -/
theorem Expansion.expandCall_bare {as : List Text} (has : ∀ a ∈ as, Compact a)
    (hfirst : ∀ a ∈ as.head?, a.head? ≠ some '(') (inner : Text → Expansion Text) (m : Macro) :
    expandCall inner m (parenthesised as) = expandCall inner m (bare as) ∧
    (as.length = m.parameters.length →
      expandCall inner m (bare as) = expandWith inner m as) := by
  have hsplit : splitArguments (Text.joined [',', ' '] as) = as :=
    Separable.splitArguments (.inr has)
  have hcomplete : Scan.Complete (Text.joined [',', ' '] as) :=
    complete_joined fun a ha => (has a ha).toWellFormed
  have htrim : (Text.joined [',', ' '] as).trim = Text.joined [',', ' '] as :=
    Text.trim_joined fun a ha => ⟨(has a ha).ne_nil, (has a ha).trimmed⟩
  have hhead : (Text.joined [',', ' '] as).head? ≠ some '(' := by
    rw [head?_joined fun a ha => (has a ha).ne_nil]
    -- the text begins as the first argument does
    cases as with
    | nil => exact nofun
    | cons a as => exact hfirst a rfl
  have hbare : callText? (bare as) = some (Text.joined [',', ' '] as) :=
    callText?_of_head? hcomplete htrim hhead
  have hparentheses : callText? (parenthesised as) = some (Text.joined [',', ' '] as) := by
    have h : callText? (parenthesised as ++ ([] ++ [])) = some (Text.joined [',', ' '] as) :=
      callText?_parenthesised hcomplete nofun nofun
    rwa [List.append_nil, List.append_nil] at h
  constructor
  · rw [expandCall, expandCall, callArguments, callArguments, hbare, hparentheses]
  · intro hlength
    exact expandCall_of_callArguments (callArguments_of_callText? hbare hsplit hlength) inner

/-- A macro that loads a word and adds to it. -/
def loadAdd : Macro :=
  ⟨"loadadd".toList, ["%a".toList, "%v".toList], "lw $t0, %a\naddi $t0, $t0, %v".toList, 1⟩

theorem Expansion.expandCall_bare_offset :
    let as := ["4($sp)".toList, "'('".toList]
    (∀ a ∈ as, Compact a) ∧ (∀ a ∈ as.head?, a.head? ≠ some '(') ∧
    expandCall pure loadAdd (parenthesised as) = expandCall pure loadAdd (bare as) ∧
    expandCall pure loadAdd (bare as) = expandWith pure loadAdd as := by
  intro as
  have has : ∀ a ∈ as, Compact a := by decide +kernel
  have hfirst : ∀ a ∈ as.head?, a.head? ≠ some '(' := by decide
  obtain ⟨hforms, hwith⟩ := expandCall_bare has hfirst pure loadAdd
  exact ⟨has, hfirst, hforms, hwith (by decide)⟩

/-- A macro that loads a value. -/
def load : Macro := ⟨"load".toList, ["%v".toList], "li $t0, %v".toList, 1⟩

/-- A parenthesis right behind the name and its blanks begins a call with parentheses: a first
argument that begins with one loses it there, and the argument does not come through as it is. -/
theorem Expansion.expandCall_bare_parenthesis :
    let as := ["(x)".toList]
    as.length = load.parameters.length ∧ (∀ a ∈ as, Compact a) ∧
    ((expandCall pure load (parenthesised as)).run [load]).result = .ok "li $t0, (x)".toList ∧
    ((expandCall pure load (bare as)).run [load]).result = .ok "li $t0, x".toList := by
  decide +kernel

end MipsAsm
