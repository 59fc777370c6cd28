import MipsAsm.Isa.Instruction
import MipsAsm.Proofs.Number.Decimal
import MipsAsm.Proofs.Number.Word
import MipsAsm.Proofs.Operand.Rules
import MipsAsm.Proofs.Operand.Unambiguous
import MipsAsm.Proofs.Scan.Line

/-!
# Operands as they are written

Values for the slots of a shape (`Filling`) are written as text: registers by their indices, numbers
in decimal, labels as they are. Whatever other shapes are admitted, the text is matched with the
shape, and the parameters have the values (`matchOperands_written`).
-/

namespace MipsAsm

open Scan

-- powers are the ones that numbers have, not those of a monoid
attribute [local instance(2000)] instPowNat

/-! ### Writing -/

/-- Values for the slots of a shape: the registers in their places, of which a base register takes
the second, a label, and a number that fits in a word, signed or not. A number that is not negative
may have a plus in front. -/
structure Filling where
  reg1       : Register
  reg2       : Register
  reg3       : Register
  label      : Text
  number     : Int
  plus       : Bool
  identifier : isIdentifier label
  fits       : -2 ^ (31 : Nat) ≤ number ∧ number < 2 ^ (32 : Nat)

/-- The index of a register behind a dollar sign. -/
def registerText (r : Register) : Text := '$' :: Nat.toDigits 10 r.val

/-- A number in decimal; it has a sign if it is negative or if it is to have one. -/
def numberText (plus : Bool) (v : Int) : Text :=
  if v < 0 then '-' :: Nat.toDigits 10 v.natAbs
  else if plus then '+' :: Nat.toDigits 10 v.natAbs
  else Nat.toDigits 10 v.natAbs

namespace Slot

/-- What is written in a slot. A number behind a label always has a sign. -/
def written (x : Filling) : Slot → Text
  | .first                         => registerText x.reg1
  | .second                        => registerText x.reg2
  | .third                         => registerText x.reg3
  | .immediate | .offset           => numberText x.plus x.number
  | .label                         => x.label
  | .labelImmediate | .labelOffset => x.label ++ numberText true x.number
  | .base                          => '(' :: (registerText x.reg2 ++ [')'])

/-- What stands between two slots: nothing between an offset and its base register, else a comma and
a blank. -/
def separator (s s' : Slot) : Text :=
  if s' = .base ∧ (s = .offset ∨ s = .label ∨ s = .labelOffset) then [] else [',', ' ']

/-- What is written in slots, one behind the other. -/
def writtenAll (x : Filling) : List Slot → Text
  | []            => []
  | [s]           => s.written x
  | s :: s' :: ss => s.written x ++ (s.separator s' ++ writtenAll x (s' :: ss))

end Slot

/-- The text of operands in a shape. -/
def Shape.written (s : Shape) (x : Filling) : Text := Slot.writtenAll x s.slots

/-- The parameters that have the values of a shape's slots. -/
def Shape.filled (s : Shape) (x : Filling) : Parameters where
  shape     := s
  reg1      := if .first ∈ s.slots then some x.reg1 else none
  reg2      := if .second ∈ s.slots ∨ .base ∈ s.slots then some x.reg2 else none
  reg3      := if .third ∈ s.slots then some x.reg3 else none
  label     :=
    if .label ∈ s.slots ∨ .labelImmediate ∈ s.slots ∨ .labelOffset ∈ s.slots then some x.label
    else none
  immediate :=
    if .immediate ∈ s.slots ∨ .labelImmediate ∈ s.slots then (x.number % 2 ^ (32 : Nat)).toNat
    else 0
  offset    :=
    if .offset ∈ s.slots ∨ .labelOffset ∈ s.slots then (x.number % 2 ^ (32 : Nat)).toNat else 0

/-! ### Texts and their operands -/

/-- A text is read as some operands in front of what follows. -/
def Lexes (w : Text) (ops : List Operand) (t : Text) : Prop :=
  ∀ (offset : Nat) (ls : List Lexeme), Lexed (offset + w.length) t ls →
    ∃ ls', Lexed offset (w ++ t) ls' ∧ ls'.map Lexeme.operand = ops ++ ls.map Lexeme.operand

namespace Lexes

variable {w w' t : Text} {ops ops' : List Operand}

lemma nil (t : Text) : Lexes [] [] t := fun _ ls h => ⟨ls, h, rfl⟩

lemma of_takes {rule : Rule} {op : Operand} (h : rule.Takes w t) (hop : rule.operand w = .ok op) :
    Lexes w [op] t :=
  fun _ _ hls => ⟨_, .operand h hop hls, rfl⟩

lemma append (h : Lexes w ops (w' ++ t)) (h' : Lexes w' ops' t) :
    Lexes (w ++ w') (ops ++ ops') t := by
  intro offset ls hls
  rw [List.length_append, ← Nat.add_assoc] at hls
  obtain ⟨ls', hls', hops'⟩ := h' _ _ hls
  obtain ⟨ls'', hls'', hops⟩ := h _ _ hls'
  refine ⟨ls'', ?_, ?_⟩
  · rwa [List.append_assoc]
  · rw [hops, hops', List.append_assoc]

lemma cons {c : Char} (h : Lexes [c] ops (w ++ t)) (h' : Lexes w ops' t) :
    Lexes (c :: w) (ops ++ ops') t :=
  h.append h'

/-- A comma and a blank are no operands. -/
lemma comma (t : Text) : Lexes [',', ' '] [] t :=
  fun _ ls h => ⟨ls, .spacing rfl (.spacing rfl h), rfl⟩

lemma operands (h : Lexes w ops []) : MipsAsm.operands w = .ok ops := by
  obtain ⟨ls, hls, hops⟩ := h 0 [] .nil
  rw [List.append_nil] at hls
  rw [List.map_nil, List.append_nil] at hops
  rw [MipsAsm.operands, lexOperands, lexFrom_eq_ok_iff.mpr hls, Except.map, hops]

end Lexes

/-! ### What is written is read -/

/-- The text is empty or begins with a character that goes on with no register, number or label. -/
def Stops (t : Text) : Prop := ∀ c ∈ t.head?, c ∈ [',', '(', ')', '+', '-']

section

variable {p : Char → Bool} {w t ds l : Text}

lemma Stops.not_of_class (h : Stops t) (hp : [',', '(', ')', '+', '-'].all fun c => !p c) :
    ∀ c ∈ t.head?, p c = false := by
  intro c hc
  simpa using List.all_eq_true.mp hp c (h c hc)

/-- A class without blanks and commas has no characters between operands. -/
lemma not_isSpacing_of_class (hp : " \t\r\x0c\x0b,\n".toList.all fun c => !p c) {c : Char}
    (hc : p c) : ¬ isSpacing c := by
  intro hspacing
  have := List.all_eq_true.mp hp c (List.contains_iff_mem.mp hspacing)
  rw [hc] at this
  cases this

lemma runLength_append (hw : ∀ c ∈ w, p c) (ht : ∀ c ∈ t.head?, p c = false) :
    runLength p (w ++ t) = w.length := by
  rw [runLength, takeWhile_append_stop ht, List.takeWhile_eq_self_iff.mpr hw]

/-- The first rule that matches is the one in front of which none does. -/
lemma Rule.first?_eq {rule : Rule} (before : List Rule) {after : List Rule}
    (hall : all = before ++ rule :: after) (hbefore : ∀ r ∈ before, r.extent t = 0)
    (hrule : 0 < rule.extent t) : first? t = some rule := by
  rw [first?, hall, List.find?_eq_some_iff_append]
  refine ⟨by simpa using hrule, before, after, rfl, fun r hr => ?_⟩
  simp [hbefore r hr]

lemma extent_register_eq_zero (h : t.head? ≠ some '$') : Rule.extent .register t = 0 := by
  rw [Rule.extent]
  rintro t' rfl
  exact h rfl

lemma runLength_isDigit_eq_zero (h : ∀ c ∈ t.head?, isDigit c = false) :
    runLength isDigit t = 0 := by
  have := runLength_append (w := []) (by simp) h
  rwa [List.nil_append] at this

lemma floatExtent_eq_zero (h : ∀ c ∈ t.head?, isDigit c = false) : floatExtent t = 0 := by
  rw [floatExtent]
  exact if_pos (runLength_isDigit_eq_zero h)

lemma extent_number_eq_zero (h : ∀ c ∈ t.head?, isDigit c = false) : Rule.extent .number t = 0 := by
  rw [Rule.extent]
  · exact runLength_isDigit_eq_zero h
  · rintro x r rfl
    cases h '0' rfl

/-! #### Marks -/

/-- The rules for single characters take them wherever they stand. -/
lemma takes_mark {rule : Rule} {c : Char}
    (h : (rule, c) ∈ [(Rule.leftParen, '('), (Rule.rightParen, ')'), (Rule.plus, '+'),
      (Rule.minus, '-')]) (t : Text) : rule.Takes [c] t := by
  have hlabel : ['(', ')', '+', '-'].map isIdentifierStart = [false, false, false, false] := by
    decide +kernel
  simp only [List.map_cons, List.map_nil, List.cons.injEq, and_true] at hlabel
  simp only [List.mem_cons, Prod.mk.injEq, List.not_mem_nil, or_false] at h
  obtain ⟨rfl, rfl⟩ | ⟨rfl, rfl⟩ | ⟨rfl, rfl⟩ | ⟨rfl, rfl⟩ := h
  all_goals
    refine ⟨by rintro c ⟨⟩; decide, ?_, rfl⟩
    simp [Rule.first?, Rule.all, Rule.extent, floatExtent, runLength, isDigit, charExtent,
      Rule.charAt, hlabel]

lemma lexes_leftParen (t : Text) : Lexes ['('] [.leftParen] t :=
  .of_takes (takes_mark (.head _) t) rfl

lemma lexes_rightParen (t : Text) : Lexes [')'] [.rightParen] t :=
  .of_takes (takes_mark (.tail _ (.head _)) t) rfl

lemma lexes_plus (t : Text) : Lexes ['+'] [.plus] t :=
  .of_takes (takes_mark (.tail _ (.tail _ (.head _))) t) rfl

lemma lexes_minus (t : Text) : Lexes ['-'] [.minus] t :=
  .of_takes (takes_mark (.tail _ (.tail _ (.tail _ (.head _)))) t) rfl

/-! #### Registers -/

lemma read_registerText (r : Register) : Register.read (registerText r) = .ok r := by
  have hall : ∀ r : Register, Register.read (registerText r) = .ok r := by decide +kernel
  exact hall r

lemma lexes_register (r : Register) (ht : Stops t) : Lexes (registerText r) [.register r] t := by
  have hword : ∀ c ∈ Nat.toDigits 10 r.val, isWordChar c :=
    fun c hc => isWordChar_of_isDigit (Number.isDigit_of_mem_toDigits hc)
  have hlength := runLength_append hword (ht.not_of_class (p := isWordChar) (by decide +kernel))
  have hextent : Rule.extent .register (registerText r ++ t) = (registerText r).length := by
    rw [registerText, List.cons_append, Rule.extent, hlength]
    exact if_neg fun h => Nat.toDigits_ne_nil (List.length_eq_zero_iff.mp h)
  have hop : Rule.operand .register (registerText r) = .ok (.register r) :=
    map_eq_ok.mpr ⟨r, read_registerText r, rfl⟩
  refine .of_takes ⟨?_, ?_, hextent⟩ hop
  · rintro c ⟨⟩
    decide
  · refine Rule.first?_eq [] rfl (by simp) ?_
    rw [hextent]
    exact Nat.succ_pos _

/-! #### Numbers -/

lemma exponentExtent_eq_zero (ht : Stops t) : exponentExtent t = 0 := by
  cases t with
  | nil => rfl
  | cons c t =>
    have hc := ht c rfl
    rw [exponentExtent, if_neg]
    rintro (rfl | rfl) <;> revert hc <;> decide

/-- Digits without a point and an exponent are no float. -/
lemma floatExtent_digits (hne : ds ≠ []) (hdigits : ∀ c ∈ ds, isDigit c) (ht : Stops t) :
    floatExtent (ds ++ t) = 0 := by
  rw [floatExtent, runLength_append hdigits (ht.not_of_class (p := isDigit) (by decide))]
  dsimp only
  rw [if_neg (by simpa using hne), List.drop_left]
  split
  · -- a point is none of the characters at which an operand stops
    next r => exact absurd (ht '.' rfl) (by decide)
  · rw [exponentExtent_eq_zero ht]
    rfl

/-- No mark of a base stands in digits, or behind them. -/
lemma not_baseMark {x y : Char} {r : Text} (hne : ds ≠ []) (hdigits : ∀ c ∈ ds, isDigit c)
    (ht : Stops t) (h : ds ++ t = y :: x :: r) : ¬ (x = 'x' ∨ x = 'X') := by
  have hmem : isDigit x ∨ x ∈ [',', '(', ')', '+', '-'] := by
    cases ds with
    | nil => exact absurd rfl hne
    | cons c ds =>
      obtain ⟨-, h⟩ := List.cons.inj h
      cases ds with
      | nil =>
        obtain rfl := h
        exact .inr (ht x rfl)
      | cons d ds =>
        obtain ⟨rfl, -⟩ := List.cons.inj h
        exact .inl (hdigits d (by simp))
  rintro (rfl | rfl) <;> revert hmem <;> decide

lemma extent_number_digits (hne : ds ≠ []) (hdigits : ∀ c ∈ ds, isDigit c) (ht : Stops t) :
    Rule.extent .number (ds ++ t) = ds.length := by
  have hlength := runLength_append hdigits (ht.not_of_class (p := isDigit) (by decide))
  by_cases hzero : ∃ x r, ds ++ t = '0' :: x :: r
  · -- a zero in front might begin another base, but no mark of one follows
    obtain ⟨x, r, hds⟩ := hzero
    rw [← hlength, hds, Rule.extent]
    exact if_neg fun h => not_baseMark hne hdigits ht hds h.1
  · rw [Rule.extent]
    · exact hlength
    · exact fun x r h => hzero ⟨x, r, h⟩

lemma takes_digits (hne : ds ≠ []) (hdigits : ∀ c ∈ ds, isDigit c) (ht : Stops t) :
    Rule.number.Takes ds t := by
  have hextent := extent_number_digits hne hdigits ht
  have hfloat := floatExtent_digits hne hdigits ht
  obtain ⟨c, ds, rfl⟩ := List.exists_cons_of_ne_nil hne
  have hc := hdigits c List.mem_cons_self
  refine ⟨?_, ?_, hextent⟩
  · rintro c' ⟨⟩ hspacing
    exact absurd hspacing (not_isSpacing_of_class (p := isDigit) (by decide) hc)
  · -- registers and floats come first, and take nothing here
    refine Rule.first?_eq [.register, .float] rfl ?_ ?_
    · rw [List.forall_mem_cons, List.forall_mem_singleton]
      refine ⟨extent_register_eq_zero ?_, hfloat⟩
      rintro ⟨⟩
      cases hc
    · rw [hextent]
      exact Nat.succ_pos _

/-- The operands of a number in decimal. -/
def numberOperands (plus : Bool) (v : Int) : List Operand :=
  if v < 0 then [.minus, .number v.natAbs]
  else if plus then [.plus, .number v.natAbs]
  else [.number v.natAbs]

lemma lexes_digits {n : Nat} (hn : n < 2 ^ (32 : Nat)) (ht : Stops t) :
    Lexes (Nat.toDigits 10 n) [.number n] t :=
  .of_takes (takes_digits Nat.toDigits_ne_nil (fun _ => Number.isDigit_of_mem_toDigits) ht)
    (map_eq_ok.mpr ⟨n, Number.readImmediate_toDigits hn, rfl⟩)

lemma lexes_number (plus : Bool) {v : Int} (hv : -2 ^ (31 : Nat) ≤ v ∧ v < 2 ^ (32 : Nat))
    (ht : Stops t) : Lexes (numberText plus v) (numberOperands plus v) t := by
  have hdigits : Lexes (Nat.toDigits 10 v.natAbs) [.number v.natAbs] t :=
    lexes_digits (by omega) ht
  rw [numberText, numberOperands]
  split_ifs
  · exact (lexes_minus _).cons hdigits
  · exact (lexes_plus _).cons hdigits
  · exact hdigits

lemma signedReading_numberOperands (v : Int) : SignedReading v (numberOperands true v) := by
  rw [numberOperands, if_pos rfl]
  split
  · have hv : v = -(v.natAbs : Int) := by omega
    nth_rewrite 1 [hv]
    exact .minus v.natAbs
  · have hv : v = v.natAbs := by omega
    nth_rewrite 1 [hv]
    exact .plus v.natAbs

lemma numberReading_numberOperands (plus : Bool) (v : Int) :
    NumberReading v (numberOperands plus v) := by
  by_cases hsign : v < 0 ∨ plus = true
  · have : numberOperands plus v = numberOperands true v := by
      rw [numberOperands, numberOperands]
      -- a negative number has its sign in any case
      rcases hsign with hv | rfl
      · rw [if_pos hv, if_pos hv]
      · rfl
    rw [this]
    exact .signed (signedReading_numberOperands v)
  · rw [not_or] at hsign
    rw [numberOperands, if_neg hsign.1, if_neg hsign.2]
    have hv : v = v.natAbs := by omega
    nth_rewrite 1 [hv]
    exact .bare v.natAbs

/-! #### Labels -/

lemma isDigit_of_isIdentifierStart {c : Char} (h : isIdentifierStart c) : isDigit c = false := by
  by_contra hdigit
  rw [Bool.not_eq_false] at hdigit
  have hrange : 0x30 ≤ c.toNat ∧ c.toNat ≤ 0x39 := by
    simpa [isDigit, Char.le_def, UInt32.le_iff_toNat_le] using hdigit
  have hlt : c.toNat < 0x80 := by omega
  simp [isIdentifierStart, isEmoji, isDecimal, decimalValue?, hlt, hrange] at h

lemma lexes_label (hl : isIdentifier l) (ht : Stops t) : Lexes l [.label l] t := by
  cases l with
  | nil => cases hl
  | cons c r =>
    rw [isIdentifier, Bool.and_eq_true, List.all_eq_true] at hl
    obtain ⟨hstart, hpart⟩ := hl
    have hdigit : ∀ c' ∈ (c :: (r ++ t)).head?, isDigit c' = false := by
      rintro c' ⟨⟩
      exact isDigit_of_isIdentifierStart hstart
    have hlength := runLength_append hpart
      (ht.not_of_class (p := isIdentifierPart) (by decide +kernel))
    have hextent : Rule.extent .label (c :: (r ++ t)) = (c :: r).length := by
      rw [Rule.extent, if_pos hstart, hlength]
      rfl
    have hdollar : (c :: (r ++ t)).head? ≠ some '$' := by
      rintro ⟨⟩
      exact absurd hstart (by decide +kernel)
    refine .of_takes ⟨?_, ?_, hextent⟩ rfl
    · rintro c' ⟨⟩ hspacing
      exact absurd hspacing (not_isSpacing_of_class (p := isIdentifierStart) (by decide +kernel)
        hstart)
    · refine Rule.first?_eq [.register, .float, .number] rfl ?_ ?_
      · rw [List.forall_mem_cons, List.forall_mem_cons, List.forall_mem_singleton]
        exact ⟨extent_register_eq_zero hdollar, floatExtent_eq_zero hdigit,
          extent_number_eq_zero hdigit⟩
      · rw [List.cons_append, hextent]
        exact Nat.succ_pos _

end

/-! ### Slots -/

namespace Slot

variable {x : Filling} {s s' : Slot} {ss : List Slot} {t : Text}

/-- The operands that are written in a slot. -/
def operands (x : Filling) : Slot → List Operand
  | .first                         => [.register x.reg1]
  | .second                        => [.register x.reg2]
  | .third                         => [.register x.reg3]
  | .immediate | .offset           => numberOperands x.plus x.number
  | .label                         => [.label x.label]
  | .labelImmediate | .labelOffset => .label x.label :: numberOperands true x.number
  | .base                          => [.leftParen, .register x.reg2, .rightParen]

lemma stops_numberText (v : Int) (t : Text) : Stops (numberText true v ++ t) := by
  rw [numberText, if_pos rfl]
  split
  · rintro c ⟨⟩
    decide
  · rintro c ⟨⟩
    decide

/-- What is written in a slot is read as its operands. -/
lemma lexes_written (x : Filling) (s : Slot) (ht : Stops t) :
    Lexes (s.written x) (s.operands x) t := by
  have hlabel : Lexes (x.label ++ numberText true x.number)
      (.label x.label :: numberOperands true x.number) t :=
    (lexes_label x.identifier (stops_numberText _ t)).append (lexes_number true x.fits ht)
  have hparen : Stops (')' :: t) := by
    rintro c ⟨⟩
    decide
  cases s with
  | first => exact lexes_register x.reg1 ht
  | second => exact lexes_register x.reg2 ht
  | third => exact lexes_register x.reg3 ht
  | immediate | offset => exact lexes_number x.plus x.fits ht
  | label => exact lexes_label x.identifier ht
  | labelImmediate | labelOffset => exact hlabel
  | base =>
    exact (lexes_leftParen _).cons ((lexes_register x.reg2 hparen).append (lexes_rightParen t))

/-- A slot ends where the next one or what separates them begins. -/
lemma stops_separator (x : Filling) (s s' : Slot) (ss : List Slot) :
    Stops (s.separator s' ++ writtenAll x (s' :: ss)) := by
  rw [separator]
  split
  · next h =>
    obtain ⟨rfl, -⟩ := h
    cases ss <;> rintro c ⟨⟩ <;> decide
  · rintro c ⟨⟩
    decide

lemma lexes_separator (s s' : Slot) (t : Text) : Lexes (s.separator s') [] t := by
  rw [separator]
  split
  · exact .nil t
  · exact .comma t

lemma lexes_writtenAll (x : Filling) (ss : List Slot) :
    Lexes (writtenAll x ss) (ss.flatMap (operands x)) [] := by
  have hnil : Stops [] := nofun
  induction ss with
  | nil => exact .nil []
  | cons s ss ih =>
    cases ss with
    | nil =>
      have := lexes_written x s hnil
      rwa [← List.append_nil (s.operands x)] at this
    | cons s' ss =>
      -- each slot is read with the rest of the line behind it, at which its operands stop
      have hstops := stops_separator x s s' ss
      refine Lexes.append (lexes_written x s ?_) ((lexes_separator s s' _).append ih)
      rwa [List.append_nil]

/-- What a slot makes of parameters. -/
def put (x : Filling) (p : Parameters) : Slot → Parameters
  | .first          => { p with reg1 := some x.reg1 }
  | .second | .base => { p with reg2 := some x.reg2 }
  | .third          => { p with reg3 := some x.reg3 }
  | .immediate      => { p with immediate := (x.number % 2 ^ (32 : Nat)).toNat }
  | .offset         => { p with offset := (x.number % 2 ^ (32 : Nat)).toNat }
  | .label          => { p with label := some x.label }
  | .labelImmediate =>
    { p with label := some x.label, immediate := (x.number % 2 ^ (32 : Nat)).toNat }
  | .labelOffset    =>
    { p with label := some x.label, offset := (x.number % 2 ^ (32 : Nat)).toNat }

lemma wordOf_number (x : Filling) :
    wordOf x.number = .ok (x.number % 2 ^ (32 : Nat)).toNat :=
  Number.toWord_of_fits ⟨by decide, x.fits⟩

/-- A slot takes the operands that are written in it. -/
lemma take_operands (x : Filling) (s : Slot) (p : Parameters) (rest : List Operand) :
    s.take p (s.operands x ++ rest) = .ok (some (s.put x p, rest)) := by
  have hnumber := (numberReading_numberOperands x.plus x.number).takeNumber rest
  have hsigned := (signedReading_numberOperands x.number).takeSigned rest
  rw [wordOf_number] at hnumber hsigned
  cases s with
  | immediate | offset =>
    rw [operands, take, hnumber]
    rfl
  | labelImmediate | labelOffset =>
    rw [operands, List.cons_append, take, hsigned]
    rfl
  | _ => rfl

lemma fill_operands (x : Filling) (ss : List Slot) (p : Parameters) :
    fill ss p (ss.flatMap (operands x)) = .ok (some (ss.foldl (put x) p)) := by
  induction ss generalizing p with
  | nil => rfl
  | cons s ss ih =>
    rw [List.flatMap_cons, fill_cons_of_some (take_operands x s p _), ih]
    rfl

end Slot

/-! ### Shapes -/

/-- The operands that are written in a shape give its parameters. -/
lemma Shape.parameters?_operands (s : Shape) (x : Filling) :
    s.parameters? (s.slots.flatMap (Slot.operands x)) = .ok (some (s.filled x)) := by
  rw [Shape.parameters?, Slot.fill_operands]
  cases s <;> rfl

/-- What is written for a shape is matched with it, whatever else is admitted, and gives back the
values that were written: registers and label as they are, the number modulo the power of two of a
word, and nothing for what the shape does not have. -/
theorem matchOperands_written {s : Shape} {admitted : List Shape} (hs : s ∈ admitted)
    (x : Filling) : matchOperands (s.written x) admitted = .ok (some (s.filled x)) := by
  have hoperands : operands (s.written x) = .ok (s.slots.flatMap (Slot.operands x)) :=
    (Slot.lexes_writtenAll x s.slots).operands
  have hparameters := s.parameters?_operands x
  -- no operands fit two shapes, so that the order in which shapes are tried does not matter
  have hmem : s ∈ Shape.priority.filter admitted.contains := by
    rw [List.mem_filter, List.contains_iff_mem]
    exact ⟨s.mem_priority, hs⟩
  have hfit : firstFit (s.slots.flatMap (Slot.operands x))
      (Shape.priority.filter admitted.contains) = .ok (some (s.filled x)) := by
    rw [firstFit_eq_of_mem hmem (by rw [hparameters]; nofun), hparameters]
  rw [matchOperands, matchInOrder, hoperands]
  exact mapError_eq_ok.mpr hfit

/-- A label with an emoji, and the least number. -/
def farthest : Filling where
  reg1       := 31
  reg2       := 29
  reg3       := 0
  label      := "loop.🚀".toList
  number     := -2147483648
  plus       := false
  identifier := by decide +kernel
  fits       := by decide

theorem matchOperands_written_farthest :
    Shape.regLabelOffsetBase ∈ Instruction.memory ∧
    Shape.regLabelOffsetBase.written farthest = "$31, loop.🚀-2147483648($29)".toList ∧
    matchOperands "$31, loop.🚀-2147483648($29)".toList Instruction.memory =
      .ok (some { shape := .regLabelOffsetBase, reg1 := some 31, reg2 := some 29,
                  label := some "loop.🚀".toList, offset := 0x80000000 }) := by
  have hs : Shape.regLabelOffsetBase ∈ Instruction.memory := by decide
  have hwritten : Shape.regLabelOffsetBase.written farthest =
      "$31, loop.🚀-2147483648($29)".toList := by decide +kernel
  have hfilled : Shape.regLabelOffsetBase.filled farthest =
      { shape := .regLabelOffsetBase, reg1 := some 31, reg2 := some 29,
        label := some "loop.🚀".toList, offset := 0x80000000 } := by decide +kernel
  refine ⟨hs, hwritten, ?_⟩
  rw [← hwritten, ← hfilled]
  exact matchOperands_written hs farthest

end MipsAsm
