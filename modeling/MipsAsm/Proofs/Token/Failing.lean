import MipsAsm.Proofs.Scan.Line
import MipsAsm.Token.Lexer
import Mathlib.Data.List.Infix

/-!
# How statements fail

Operands, directives and statements fail with a fault for which no place is told yet, or at a number
with more digits than are read, which stands in the text (`Failure.ArisesIn`). That a directive is
left to the preprocessor is said of the directives of the preprocessor only
(`Lexer.failsIn_step`, `Lexer.failsIn_runFrom`).
-/

namespace MipsAsm

/-- No place is told for the failure. -/
def Failure.Unplaced : Failure → Prop
  | .diagnosed d     => d.location = .unknown
  | .tooManyDigits _ => True

/-- The fault says something else than that a directive is left to the preprocessor. -/
def Fault.IsOwn (f : Fault) : Prop := ∀ d, f ≠ .leftToPreprocessor d

/-- How a text fails: with a fault of its own that has no place, or at a number in it with more
digits than are read. -/
inductive Failure.ArisesIn (t : Text) : Failure → Prop where
  | fault {f : Fault} (hf : f.IsOwn) : ArisesIn t (.fault f)
  | digits {ds : Text} (hds : ds <:+: t) (hall : ∀ c ∈ ds, isDigit c)
      (hmany : Number.digitLimit < ds.length) : ArisesIn t (.tooManyDigits ds.length)

lemma Failure.ArisesIn.mono {t u : Text} {e : Failure} (h : e.ArisesIn u) (hu : u <:+: t) :
    e.ArisesIn t := by
  cases h with
  | fault hf => exact .fault hf
  | digits hds hall hmany => exact .digits (hds.trans hu) hall hmany

/-! ### Faults -/

/-- Whatever fault there is, it is not that a directive is left to the preprocessor. -/
def FaultsOwn {α : Type} (x : Except Fault α) : Prop := ∀ f, x = .error f → f.IsOwn

namespace FaultsOwn

variable {α β : Type}

lemma ok (a : α) : FaultsOwn (.ok a) := nofun

lemma error {f : Fault} (h : f.IsOwn) : FaultsOwn (.error f : Except Fault α) := by
  rintro f' ⟨⟩
  exact h

lemma map {x : Except Fault α} (hx : FaultsOwn x) (f : α → β) : FaultsOwn (x.map f) := by
  cases x with
  | error e => exact error (hx e rfl)
  | ok a => exact ok (f a)

lemma bind {x : Except Fault α} {f : α → Except Fault β} (hx : FaultsOwn x)
    (hf : ∀ a, FaultsOwn (f a)) : FaultsOwn (x >>= f) := by
  cases x with
  | error e => exact error (hx e rfl)
  | ok a => exact hf a

lemma mapM {f : α → Except Fault β} (hf : ∀ a, FaultsOwn (f a)) (as : List α) :
    FaultsOwn (as.mapM f) := by
  induction as with
  | nil => exact ok []
  | cons a as ih =>
    rw [List.mapM_cons]
    exact (hf a).bind fun _ => ih.bind fun _ => ok _

end FaultsOwn

section

open FaultsOwn

lemma faultsOwn_decodeEscapes (t : Text) : FaultsOwn (decodeEscapes t) := by
  fun_induction decodeEscapes t with
  | case1 => exact ok _                       -- the end
  | case2 => exact error nofun                -- a backslash at the end
  | case3 => exact error nofun                -- an unknown escape
  | case4 e t c hc ih => exact ih.map _       -- an escape
  | case5 c t hlast hne ih => exact ih.map _  -- any other character

lemma faultsOwn_charValue (body : Text) : FaultsOwn (charValue body) := by
  rw [charValue]
  split
  · next f hf => exact error (faultsOwn_decodeEscapes body f hf)
  · exact ok _
  · exact error nofun

lemma Operand.faultsOwn_value (d : Directive) (admits : Operand → Bool) (negative : Bool)
    (op : Operand) : FaultsOwn (op.value d admits negative) := by
  unfold Operand.value
  split
  · split
    · exact ok _
    · exact ok _
    · exact (faultsOwn_charValue _).map _
    · exact error nofun
  · exact error nofun

lemma faultsOwn_readValues (d : Directive) (admits : Operand → Bool) (ops : List Operand) :
    FaultsOwn (readValues d admits ops) := by
  fun_induction readValues d admits ops with
  | case1 => exact ok _
  | case2 op ops hsign ih =>                   -- an operand without sign
    exact (op.faultsOwn_value d admits false).bind fun _ => ih.bind fun _ => ok _
  | case3 => exact error nofun                 -- a sign at the end
  | case4 op negative n ops hsign hn ih =>     -- a sign and a number
    exact (n.faultsOwn_value d admits negative).bind fun _ => ih.bind fun _ => ok _
  | case5 => exact error nofun                 -- a sign in front of something else

lemma Number.faultsOwn_toWord (v bits : Int) : FaultsOwn (toWord v bits) := by
  refine FaultsOwn.map ?_ _
  rw [wordBits, unsignedBits]
  split_ifs
  · exact ok _
  · exact error nofun
  · exact ok _
  · exact error nofun

lemma faultsOwn_integerData (bytes : Nat) (vs : List Int) : FaultsOwn (integerData bytes vs) := by
  induction vs with
  | nil => exact ok _
  | cons v vs ih => exact (Number.faultsOwn_toWord v _).bind fun _ => ih.bind fun _ => ok _

lemma faultsOwn_takeSigned (ops : List Operand) : FaultsOwn (takeSigned ops) := by
  unfold takeSigned
  split
  · exact (Number.faultsOwn_toWord _ _).bind fun _ => ok _
  · exact (Number.faultsOwn_toWord _ _).bind fun _ => ok _
  · exact ok _

lemma faultsOwn_takeNumber (ops : List Operand) : FaultsOwn (takeNumber ops) := by
  unfold takeNumber
  split
  · exact (Number.faultsOwn_toWord _ _).bind fun _ => ok _
  · exact faultsOwn_takeSigned _

lemma Slot.faultsOwn_take (s : Slot) (p : Parameters) (ops : List Operand) :
    FaultsOwn (s.take p ops) := by
  -- only slots for numbers can fail, where the number has no word
  unfold Slot.take
  split
  · exact ok _
  · exact ok _
  · exact ok _
  · exact (faultsOwn_takeNumber _).bind fun _ => ok _
  · exact (faultsOwn_takeNumber _).bind fun _ => ok _
  · exact ok _
  · exact (faultsOwn_takeSigned _).bind fun _ => ok _
  · exact (faultsOwn_takeSigned _).bind fun _ => ok _
  · exact ok _
  · exact ok _

lemma Slot.faultsOwn_fill (ss : List Slot) (p : Parameters) (ops : List Operand) :
    FaultsOwn (fill ss p ops) := by
  induction ss generalizing p ops with
  | nil => cases ops <;> exact ok _
  | cons s ss ih =>
    refine (s.faultsOwn_take p ops).bind fun taken => ?_
    cases taken with
    | none => exact ok _
    | some taken => exact ih _ _

lemma faultsOwn_firstFit (ops : List Operand) (ss : List Shape) : FaultsOwn (firstFit ops ss) := by
  induction ss with
  | nil => exact ok _
  | cons s ss ih =>
    refine (Slot.faultsOwn_fill s.slots _ ops).bind fun found => ?_
    cases found with
    | none => exact ih
    | some p => exact ok _

lemma Lexer.faultsOwn_modeOf (c : Char) : FaultsOwn (modeOf c) := by
  rw [modeOf]
  split_ifs
  · exact ok _
  · exact ok _
  · exact error nofun
  · exact ok _

end

/-! ### Failures -/

/-- A failure, if there is one, arises in the text. -/
def FailsIn {α : Type} (t : Text) (x : Except Failure α) : Prop := ∀ e, x = .error e → e.ArisesIn t

namespace FailsIn

variable {α β : Type} {t u : Text}

lemma ok (a : α) : FailsIn t (.ok a) := nofun

lemma fault {f : Fault} (hf : f.IsOwn) : FailsIn t (.error (.fault f) : Except Failure α) := by
  rintro e ⟨⟩
  exact .fault hf

lemma error {e : Failure} (h : e.ArisesIn t) : FailsIn t (.error e : Except Failure α) := by
  rintro e' ⟨⟩
  exact h

lemma mono {x : Except Failure α} (hx : FailsIn u x) (hu : u <:+: t) : FailsIn t x :=
  fun e he => (hx e he).mono hu

lemma mapError_fault {x : Except Fault α} (hx : FaultsOwn x) : FailsIn t (x.mapError .fault) := by
  cases x with
  | error f => exact fault (hx f rfl)
  | ok a => exact ok a

lemma map {x : Except Failure α} (hx : FailsIn t x) (f : α → β) : FailsIn t (x.map f) := by
  cases x with
  | error e => exact error (hx e rfl)
  | ok a => exact ok (f a)

lemma bind {x : Except Failure α} {f : α → Except Failure β} (hx : FailsIn t x)
    (hf : ∀ a, FailsIn t (f a)) : FailsIn t (x >>= f) := by
  cases x with
  | error e => exact error (hx e rfl)
  | ok a => exact hf a

end FailsIn

open FailsIn

/-! ### Operands -/

/-- The lower case of a character is the character, or begins with something else than a digit. -/
lemma lowerChar_cases (c : Char) :
    lowerChar c = [c] ∨ ∃ d r, lowerChar c = d :: r ∧ ¬ isDigit d := by
  have hcapital : ∀ n < 91, 65 ≤ n → ¬ isDigit (Char.ofNat (n + 32)) := by decide
  rw [lowerChar]
  split_ifs with hc
  · have hle : 65 ≤ c.toNat ∧ c.toNat ≤ 90 := hc
    exact .inr ⟨_, _, rfl, hcapital c.toNat (by omega) hle.1⟩
  · exact .inr ⟨_, _, rfl, by decide⟩
  · exact .inr ⟨_, _, rfl, by decide⟩
  · exact .inl rfl

/-- Only digits have digits for their lower case. -/
lemma Text.eq_of_lower_eq {t ds : Text} (h : t.lower = ds) (hds : ∀ c ∈ ds, isDigit c) :
    t = ds := by
  subst h
  induction t with
  | nil => rfl
  | cons c t ih =>
    rw [lower, List.flatMap_cons] at hds ⊢
    rw [List.forall_mem_append] at hds
    rcases lowerChar_cases c with hc | ⟨d, r, hc, hd⟩
    · rw [hc]
      exact congrArg (c :: ·) (ih hds.2)
    -- the lower case would begin with something else than a digit
    · rw [hc, List.forall_mem_cons] at hds
      exact absurd hds.1.1 hd

/-- The digits that give a register stand at the end of its name. -/
lemma Register.digits_lower_suffix {t : Text} (h : ∀ c ∈ digits t.lower, isDigit c) :
    digits t.lower <:+ t := by
  generalize hname : t.lower = name at h ⊢
  unfold digits at h ⊢
  split at h
  · next ds =>
    -- the name of a floating point register: its digits stand behind one letter
    cases t with
    | nil => cases hname
    | cons c t =>
      have hcons : lowerChar c ++ Text.lower t = 'f' :: ds := hname
      have hsingle : lowerChar c = ['f'] := by
        rw [lowerChar] at hcons ⊢
        split_ifs at hcons ⊢ <;> simp_all
      rw [hsingle] at hcons
      rw [← Text.eq_of_lower_eq (List.cons.inj hcons).2 h]
      exact List.suffix_cons c t
  · rw [← Text.eq_of_lower_eq hname h]

lemma Register.failsIn_read (t : Text) : FailsIn t (Register.read t) := by
  unfold Register.read
  dsimp only
  generalize hlower : Text.lower _ = name
  -- the name is what stands behind the dollar sign, if there is one
  obtain ⟨u, hu, rfl⟩ : ∃ u, u <:+ t ∧ Text.lower u = name := by
    refine ⟨_, ?_, hlower⟩
    split
    · exact List.suffix_cons _ _
    · exact List.suffix_refl _
  split
  · exact ok _
  · split
    · exact fault nofun
    · next hdigits =>
      rw [not_or, not_not, List.all_eq_true] at hdigits
      -- digits that are too many are those of the text, since lower case leaves digits alone
      split
      · next hmany =>
        exact error (.digits ((digits_lower_suffix hdigits.2).trans hu).isInfix hdigits.2 hmany)
      · split
        · exact ok _
        · exact fault nofun

lemma Number.cutSign_suffix (t : Text) : (cutSign t).2 <:+ t := by
  unfold cutSign
  split
  · exact List.suffix_cons _ _
  · exact List.suffix_cons _ _
  · exact List.suffix_refl _

lemma Number.failsIn_readImmediate (t : Text) : FailsIn t (Number.readImmediate t) := by
  rw [Number.readImmediate]
  dsimp only
  split
  · split
    · exact fault nofun
    · exact ok _
  · split
    · exact fault nofun
    · next hdigits =>
      rw [not_or, not_not, List.all_eq_true] at hdigits
      split
      · next hmany => exact error (.digits (cutSign_suffix t).isInfix hdigits.2 hmany)
      · split
        · exact ok _
        · exact fault nofun

lemma Rule.failsIn_operand (r : Rule) (t : Text) : FailsIn t (r.operand t) := by
  cases r with
  | register => exact (Register.failsIn_read t).map _
  | number => exact (Number.failsIn_readImmediate t).map _
  | _ => exact ok _

lemma failsIn_lexFrom (offset : Nat) (t : Text) : FailsIn t (lexFrom offset t) := by
  fun_induction lexFrom offset t with
  | case1 => exact ok _                                                     -- the end
  | case2 offset c r hc ih => exact ih.mono (List.suffix_cons c r).isInfix  -- spacing
  | case3 => exact fault nofun                                              -- no rule
  | case4 offset c r hc rule h n ih =>                                      -- the first rule
    refine ((rule.failsIn_operand _).mono (List.take_prefix _ _).isInfix).bind fun _ => ?_
    exact (ih.mono (List.drop_suffix _ _).isInfix).bind fun _ => ok _

lemma failsIn_operands (t : Text) : FailsIn t (operands t) := (failsIn_lexFrom 0 t).map _

lemma failsIn_matchOperands (t : Text) (admitted : List Shape) :
    FailsIn t (matchOperands t admitted) :=
  (failsIn_operands t).bind fun _ => mapError_fault (faultsOwn_firstFit _ _)

/-! ### Directives -/

lemma failsIn_values (d : Directive) (admits : Operand → Bool) (t : Text) :
    FailsIn t (values d admits t) :=
  (failsIn_operands t).bind fun _ => mapError_fault (faultsOwn_readValues d admits _)

lemma failsIn_oneInteger (d : Directive) (t : Text) : FailsIn t (oneInteger d t) := by
  refine (failsIn_values d _ t).bind fun arguments => ?_
  split
  · exact ok _
  · exact fault nofun

lemma failsIn_integerStatement (d : Directive) (t : Text) : FailsIn t (integerStatement d t) := by
  refine (failsIn_values d _ t).bind fun arguments => ?_
  split
  · exact fault nofun
  · exact (mapError_fault (faultsOwn_integerData _ _)).bind fun _ => ok _

lemma failsIn_floatStatement (d : Directive) (t : Text) : FailsIn t (floatStatement d t) := by
  refine (failsIn_values d _ t).bind fun arguments => ?_
  split
  · exact fault nofun
  · exact ok _

lemma failsIn_stringStatement (d : Directive) (t : Text) : FailsIn t (stringStatement d t) := by
  refine (failsIn_operands t).bind fun ops => ?_
  split
  · exact fault nofun
  · exact fault nofun
  · exact (mapError_fault (FaultsOwn.mapM faultsOwn_decodeEscapes _)).bind fun _ => ok _

lemma failsIn_alignStatement (d : Directive) (t : Text) : FailsIn t (alignStatement d t) := by
  refine (failsIn_oneInteger d t).bind fun n => ?_
  split
  · exact ok _
  · exact fault nofun

lemma failsIn_spaceStatement (d : Directive) (t : Text) : FailsIn t (spaceStatement d t) := by
  refine (failsIn_oneInteger d t).bind fun n => ?_
  split
  · exact fault nofun
  · exact ok _

lemma failsIn_sectionStatement (d : Directive) (t : Text) : FailsIn t (sectionStatement d t) := by
  refine (failsIn_values d _ t).bind fun arguments => ?_
  dsimp only
  split
  · exact fault nofun
  · exact (mapError_fault (FaultsOwn.mapM (Number.faultsOwn_toWord · _) _)).bind fun _ => ok _

lemma failsIn_globalStatement (d : Directive) (t : Text) : FailsIn t (globalStatement d t) := by
  refine (failsIn_operands t).bind fun ops => ?_
  split
  · exact fault nofun
  · exact fault nofun
  · exact ok _

lemma failsIn_externalStatement (d : Directive) (t : Text) : FailsIn t (externalStatement d t) := by
  refine (failsIn_operands t).bind fun ops => ?_
  split
  · exact ok _
  · exact fault nofun

/-- A directive is left to the preprocessor, or fails in its operands. -/
lemma Directive.failsIn_statements (d : Directive) (t : Text) :
    d.ofPreprocessor ∧ d.statements t = .error (.fault (.leftToPreprocessor d)) ∨
      FailsIn t (d.statements t) := by
  cases d with
  | byte | half | word => exact .inr (failsIn_integerStatement _ t)
  | float | double => exact .inr (failsIn_floatStatement _ t)
  | ascii | asciiz => exact .inr (failsIn_stringStatement _ t)
  | align => exact .inr (failsIn_alignStatement _ t)
  | space => exact .inr (failsIn_spaceStatement _ t)
  | data | kdata | text | ktext => exact .inr (failsIn_sectionStatement _ t)
  | globl => exact .inr (failsIn_globalStatement _ t)
  | external => exact .inr (failsIn_externalStatement _ t)
  | set => exact .inr (ok _)
  | includeFile | eqv | beginMacro | endMacro => exact .inl ⟨rfl, rfl⟩

/-! ### Moves -/

namespace Lexer

lemma failsIn_firstCandidate (operands : Text) (is : List Instruction) :
    FailsIn operands (firstCandidate operands is) := by
  induction is with
  | nil => exact ok _
  | cons i is ih =>
    refine (failsIn_matchOperands operands i.shapes).bind fun p => ?_
    cases p with
    | none => exact ih
    | some p => exact ok _

lemma isInfix_operandText (t : Text) : operandText (Scan.afterWord t) <:+: t := by
  have hstrip : operandText (Scan.afterWord t) <+: Scan.restOfLine (Scan.afterWord t) :=
    Scan.isPrefix_stripComment _
  have hline : Scan.restOfLine (Scan.afterWord t) <+: Scan.afterWord t := List.takeWhile_prefix _
  have hword : Scan.afterWord t <:+ t := List.dropWhile_suffix _
  exact (hstrip.trans hline).isInfix.trans hword.isInfix

lemma failsIn_readInitial (l : Lexer) : FailsIn l.rest (readInitial l).result := by
  unfold readInitial
  dsimp only
  split
  · exact ok _
  · exact (mapError_fault (faultsOwn_modeOf _)).map _

lemma failsIn_readComment (l : Lexer) : FailsIn l.rest (readComment l).result := by
  rw [readComment]
  split
  · exact ok _
  · exact ok _

/-- The machine stands at a directive of the preprocessor. -/
def Stands (d : Directive) (l : Lexer) : Prop :=
  Directive.ofWord? (Scan.firstWord l.rest) = some d ∧ d.ofPreprocessor

lemma failsIn_readDirective (l : Lexer) :
    (∃ d, l.Stands d ∧ (readDirective l).result = .error (.fault (.leftToPreprocessor d)) ∧
      (readDirective l).state = l) ∨
    FailsIn l.rest (readDirective l).result := by
  rw [readDirective]
  dsimp only
  split
  · exact .inr (fault nofun)
  · next d hd =>
    -- the operands fail within themselves, and they are part of what is left
    rcases d.failsIn_statements (operandText (Scan.afterWord l.rest)) with ⟨hleft, hfails⟩ | hfails
    · rw [hfails]
      exact .inl ⟨d, ⟨hd, hleft⟩, rfl, rfl⟩
    · split
      · next e he => exact .inr (error ((hfails e he).mono (isInfix_operandText l.rest)))
      · exact .inr (ok _)

lemma failsIn_readStatement (l : Lexer) : FailsIn l.rest (readStatement l).result := by
  rw [readStatement]
  split
  · exact ok _
  · split
    · exact fault (by simp [Fault.IsOwn])
    · dsimp only
      split
      · exact fault (by simp [Fault.IsOwn])
      · split
        · next e he =>
          exact error ((failsIn_firstCandidate _ _ e he).mono (isInfix_operandText l.rest))
        · exact fault (by simp [Fault.IsOwn])
        · exact ok _

lemma failsIn_readLabel (l : Lexer) : FailsIn l.rest (readLabel l).result := by
  unfold readLabel
  dsimp only
  split
  · exact ok _
  · exact fault nofun

/-- A move that fails stands at a directive of the preprocessor, or fails in what is left. -/
lemma failsIn_step (mode : Mode) (l : Lexer) :
    (∃ d, mode = .directive ∧ l.Stands d ∧
      (step mode l).result = .error (.fault (.leftToPreprocessor d)) ∧ (step mode l).state = l) ∨
    FailsIn l.rest (step mode l).result := by
  cases mode with
  | initial => exact .inr (failsIn_readInitial l)
  | comment => exact .inr (failsIn_readComment l)
  | directive =>
    rcases failsIn_readDirective l with ⟨d, hd⟩ | hfails
    · exact .inl ⟨d, rfl, hd⟩
    · exact .inr hfails
  | statement => exact .inr (failsIn_readStatement l)
  | label => exact .inr (failsIn_readLabel l)

/-- A move leaves the end of what was left. -/
lemma rest_step_suffix (mode : Mode) (l : Lexer) : (step mode l).state.rest <:+ l.rest := by
  have hdrop (n : Nat) : l.rest.drop n <:+ l.rest := List.drop_suffix n l.rest
  cases mode with
  | initial =>
    unfold step readInitial
    dsimp only
    split
    · exact hdrop _
    · exact hdrop _
  | comment =>
    rw [step, readComment]
    split
    · exact List.suffix_refl _
    · exact hdrop _
  | directive =>
    rw [step, readDirective]
    dsimp only
    split
    · exact List.suffix_refl _
    · split
      · exact List.suffix_refl _
      · exact hdrop _
  | statement =>
    rw [step, readStatement]
    split
    · exact List.suffix_refl _
    · split
      · exact List.suffix_refl _
      · dsimp only
        split
        · exact List.suffix_refl _
        · split
          · exact List.suffix_refl _
          · exact List.suffix_refl _
          · exact hdrop _
  | label =>
    unfold step readLabel
    dsimp only
    split
    · exact hdrop _
    · exact List.suffix_refl _

/-- A run fails at a directive of the preprocessor, or in what was left at its beginning. -/
lemma failsIn_runFrom (mode : Mode) (l : Lexer) :
    (∃ d, (runFrom mode l).result = .error (.fault (.leftToPreprocessor d))) ∨
    FailsIn l.rest (runFrom mode l).result := by
  fun_induction runFrom mode l with
  | case1 mode l o e h =>                     -- the move fails
    rcases failsIn_step mode l with ⟨d, -, -, hd, -⟩ | hfails
    · cases h.symm.trans hd
      exact .inl ⟨d, rfl⟩
    · exact .inr (error (hfails e h))
  | case2 mode l o h => exact .inr (ok _)     -- the machine halts
  | case3 mode l o next h o' ih =>            -- it goes on
    exact ih.imp_right fun hfails => hfails.mono (rest_step_suffix mode l).isInfix

/-- A run that fails does not tell where. -/
lemma unplaced_runFrom (mode : Mode) (l : Lexer) {e : Failure}
    (h : (runFrom mode l).result = .error e) : e.Unplaced := by
  rcases failsIn_runFrom mode l with ⟨d, hd⟩ | hfails
  · cases h.symm.trans hd
    rfl
  · cases hfails e h with
    | fault => rfl
    | digits => trivial

end Lexer

end MipsAsm
