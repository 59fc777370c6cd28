import MipsAsm.Isa.Instruction
import MipsAsm.Operand.Match
import Mathlib.Data.List.Nodup
import Mathlib.Tactic.Lemma

/-!
# Operand shapes are unambiguous

The operands that a slot takes are of kinds that the slot determines, signs apart, and no two shapes
have the same kinds: operands fit one shape at most.

An attempt that fails midway has met the first number of the operands, because no shape has two
numeric slots. It fails for that number whatever the shape, and then no shape fits. The order in
which shapes are tried is therefore of no effect (`matchInOrder_unambiguous`).
-/

namespace MipsAsm

/-! ### What slots take -/

/-- A number behind an explicit sign, and its value. -/
inductive SignedReading : Int → List Operand → Prop where
  | plus (v : Int)  : SignedReading v [.plus, .number v]
  | minus (v : Int) : SignedReading (-v) [.minus, .number v]

/-- A number with or without a sign, and its value. -/
inductive NumberReading : Int → List Operand → Prop where
  | bare (v : Int) : NumberReading v [.number v]
  | signed {v : Int} {used : List Operand} (h : SignedReading v used) : NumberReading v used

namespace Slot

/-- The operands that a slot takes, with the number among them if there is one. -/
inductive Reads : Slot → Option Int → List Operand → Prop where
  | first (r : Register)  : Reads .first none [.register r]
  | second (r : Register) : Reads .second none [.register r]
  | third (r : Register)  : Reads .third none [.register r]
  | label (l : Text)      : Reads .label none [.label l]
  | base (r : Register)   : Reads .base none [.leftParen, .register r, .rightParen]
  | immediate {v : Int} {used : List Operand} (h : NumberReading v used) :
      Reads .immediate (some v) used
  | offset {v : Int} {used : List Operand} (h : NumberReading v used) :
      Reads .offset (some v) used
  | labelImmediate {v : Int} {used : List Operand} (l : Text) (h : SignedReading v used) :
      Reads .labelImmediate (some v) (.label l :: used)
  | labelOffset {v : Int} {used : List Operand} (l : Text) (h : SignedReading v used) :
      Reads .labelOffset (some v) (.label l :: used)

/-- Operands that slots take one after the other. -/
inductive ReadsAll : List Slot → List Operand → Prop where
  | nil : ReadsAll [] []
  | cons {s : Slot} {ss : List Slot} {n : Option Int} {used rest : List Operand}
      (h : s.Reads n used) (hs : ReadsAll ss rest) : ReadsAll (s :: ss) (used ++ rest)

end Slot

/-- Operands of which a shape takes all, whether or not the number among them fits in a word. -/
def Shape.Reads (s : Shape) (ops : List Operand) : Prop := Slot.ReadsAll s.slots ops

/-! ### Kinds -/

/-- What a slot can tell of an operand. -/
inductive OperandKind where
  | register
  | number
  | label
  | leftParen
  | rightParen
  | other
deriving DecidableEq, Repr

/-- The kind of an operand that is no sign. -/
def Operand.kind? : Operand → Option OperandKind
  | .register _       => some .register
  | .number _         => some .number
  | .label _          => some .label
  | .leftParen        => some .leftParen
  | .rightParen       => some .rightParen
  | .plus | .minus    => none
  | _                 => some .other

/-- The kinds of the operands that a slot takes, signs left out. -/
def Slot.kinds : Slot → List OperandKind
  | .first | .second | .third      => [.register]
  | .immediate | .offset           => [.number]
  | .label                         => [.label]
  | .labelImmediate | .labelOffset => [.label, .number]
  | .base                          => [.leftParen, .register, .rightParen]

/-- The kinds of the operands that a shape takes, signs left out. -/
def Shape.kinds (s : Shape) : List OperandKind := s.slots.flatMap Slot.kinds

lemma SignedReading.kinds {v : Int} {used : List Operand} (h : SignedReading v used) :
    used.filterMap Operand.kind? = [.number] := by
  cases h <;> rfl

lemma NumberReading.kinds {v : Int} {used : List Operand} (h : NumberReading v used) :
    used.filterMap Operand.kind? = [.number] := by
  cases h with
  | bare => rfl
  | signed h => exact h.kinds

lemma Slot.Reads.kinds {s : Slot} {n : Option Int} {used : List Operand} (h : s.Reads n used) :
    used.filterMap Operand.kind? = s.kinds := by
  cases h with
  | immediate h | offset h => exact h.kinds
  | labelImmediate l h | labelOffset l h => exact congrArg (_ :: ·) h.kinds
  | _ => rfl

lemma Slot.ReadsAll.kinds {ss : List Slot} {ops : List Operand} (h : ReadsAll ss ops) :
    ops.filterMap Operand.kind? = ss.flatMap Slot.kinds := by
  induction h with
  | nil => rfl
  | cons h _ ih => rw [List.filterMap_append, h.kinds, ih, List.flatMap_cons]

lemma Shape.kinds_injective : Function.Injective Shape.kinds := by
  have hnodup : (Shape.all.map Shape.kinds).Nodup := by decide
  intro s s' h
  exact List.inj_on_of_nodup_map hnodup (mem_all s) (mem_all s') h

/-- Operands are those of one shape at most. -/
lemma Shape.Reads.unique {s s' : Shape} {ops : List Operand} (h : s.Reads ops)
    (h' : s'.Reads ops) : s = s' := by
  apply Shape.kinds_injective
  exact (Slot.ReadsAll.kinds h).symm.trans (Slot.ReadsAll.kinds h')

/-! ### Numbers -/

/-- The first number of some operands, with the sign in front of it. -/
def firstNumber? : List Operand → Option Int
  | []                       => none
  | .minus :: .number v :: _ => some (-v)
  | .number v :: _           => some v
  | _ :: ops                 => firstNumber? ops

/-- The word of the number that a slot takes; a slot without number needs none. -/
def wordOfNumber (n : Option Int) : Except Fault Nat := n.elim (.ok 0) wordOf

/-- The slot takes a number. -/
def Slot.isNumeric : Slot → Bool
  | .immediate | .offset | .labelImmediate | .labelOffset => true
  | _                                                     => false

lemma Slot.Reads.isSome_number {s : Slot} {n : Option Int} {used : List Operand}
    (h : s.Reads n used) : n.isSome = s.isNumeric := by
  cases h <;> rfl

lemma SignedReading.firstNumber?_append {v : Int} {used : List Operand} (h : SignedReading v used)
    (rest : List Operand) : firstNumber? (used ++ rest) = some v := by
  cases h <;> rfl

lemma NumberReading.firstNumber?_append {v : Int} {used : List Operand} (h : NumberReading v used)
    (rest : List Operand) : firstNumber? (used ++ rest) = some v := by
  cases h with
  | bare => rfl
  | signed h => exact h.firstNumber?_append rest

lemma Slot.Reads.firstNumber?_append {s : Slot} {n : Option Int} {used : List Operand}
    (h : s.Reads n used) (rest : List Operand) :
    firstNumber? (used ++ rest) = n.or (firstNumber? rest) := by
  cases h with
  | immediate h | offset h => exact h.firstNumber?_append rest
  | labelImmediate l h | labelOffset l h => exact h.firstNumber?_append rest
  | _ => rfl

/-- No shape takes two numbers. -/
lemma Shape.countP_isNumeric_le (s : Shape) : s.slots.countP Slot.isNumeric ≤ 1 := by
  cases s <;> decide

/-! ### Attempts -/

lemma takeSigned_cases (ops : List Operand) :
    takeSigned ops = .ok none ∨
    ∃ v used rest, SignedReading v used ∧ ops = used ++ rest ∧
      takeSigned ops = (wordOf v).map fun w => some (w, rest) := by
  unfold takeSigned
  split
  · next v rest => exact .inr ⟨v, _, rest, .plus v, rfl, by cases wordOf v <;> rfl⟩
  · next v rest => exact .inr ⟨-v, _, rest, .minus v, rfl, by cases wordOf (-v) <;> rfl⟩
  · exact .inl rfl

lemma takeNumber_cases (ops : List Operand) :
    takeNumber ops = .ok none ∨
    ∃ v used rest, NumberReading v used ∧ ops = used ++ rest ∧
      takeNumber ops = (wordOf v).map fun w => some (w, rest) := by
  unfold takeNumber
  split
  · next v rest => exact .inr ⟨v, _, rest, .bare v, rfl, by cases wordOf v <;> rfl⟩
  · obtain h | ⟨v, used, rest, hv, hops, h⟩ := takeSigned_cases ops
    · exact .inl h
    · exact .inr ⟨v, used, rest, .signed hv, hops, h⟩

/-- A number that is taken for a slot gives what its word gives. -/
lemma wordOf_bind {α : Type} (v : Int) (rest : List Operand) (g : Nat × List Operand → α) :
    (((wordOf v).map fun w => some (w, rest)) >>= fun taken => pure (taken.map g)) =
      (wordOfNumber (some v)).map fun w => some (g (w, rest)) := by
  cases hw : wordOf v <;> simp only [wordOfNumber, Option.elim, hw] <;> rfl

/-- A slot finds nothing to take, or what it gives depends only on the word of the number that it
takes. -/
lemma Slot.take_cases (s : Slot) (p : Parameters) (ops : List Operand) :
    s.take p ops = .ok none ∨
    ∃ n used rest, s.Reads n used ∧ ops = used ++ rest ∧
      ∃ f : Nat → Parameters,
        s.take p ops = (wordOfNumber n).map fun w => some (f w, rest) := by
  unfold take
  split
  · next r rest => exact .inr ⟨none, _, rest, .first r, rfl, fun _ => _, rfl⟩
  · next r rest => exact .inr ⟨none, _, rest, .second r, rfl, fun _ => _, rfl⟩
  · next r rest => exact .inr ⟨none, _, rest, .third r, rfl, fun _ => _, rfl⟩
  · obtain h | ⟨v, used, rest, hv, hops, h⟩ := takeNumber_cases ops
    · exact .inl (by rw [h]; rfl)
    · exact .inr ⟨_, used, rest, .immediate hv, hops, fun w => { p with immediate := w },
        by rw [h]; exact wordOf_bind ..⟩
  · obtain h | ⟨v, used, rest, hv, hops, h⟩ := takeNumber_cases ops
    · exact .inl (by rw [h]; rfl)
    · exact .inr ⟨_, used, rest, .offset hv, hops, fun w => { p with offset := w },
        by rw [h]; exact wordOf_bind ..⟩
  · next l rest => exact .inr ⟨none, _, rest, .label l, rfl, fun _ => _, rfl⟩
  · next l ops =>
    obtain h | ⟨v, used, rest, hv, rfl, h⟩ := takeSigned_cases ops
    · exact .inl (by rw [h]; rfl)
    · exact .inr ⟨_, _, rest, .labelImmediate l hv, rfl,
        fun w => { p with label := some l, immediate := w },
        by rw [h]; exact wordOf_bind ..⟩
  · next l ops =>
    obtain h | ⟨v, used, rest, hv, rfl, h⟩ := takeSigned_cases ops
    · exact .inl (by rw [h]; rfl)
    · exact .inr ⟨_, _, rest, .labelOffset l hv, rfl,
        fun w => { p with label := some l, offset := w },
        by rw [h]; exact wordOf_bind ..⟩
  · next r rest => exact .inr ⟨none, _, rest, .base r, rfl, fun _ => _, rfl⟩
  · exact .inl rfl

lemma SignedReading.takeSigned {v : Int} {used : List Operand} (h : SignedReading v used)
    (rest : List Operand) :
    MipsAsm.takeSigned (used ++ rest) = (wordOf v).map fun w => some (w, rest) := by
  cases h with
  | plus v => cases hw : wordOf v <;> simp only [List.cons_append, MipsAsm.takeSigned, hw] <;> rfl
  | minus v =>
    cases hw : wordOf (-v) <;> simp only [List.cons_append, MipsAsm.takeSigned, hw] <;> rfl

lemma NumberReading.takeNumber {v : Int} {used : List Operand} (h : NumberReading v used)
    (rest : List Operand) :
    MipsAsm.takeNumber (used ++ rest) = (wordOf v).map fun w => some (w, rest) := by
  cases h with
  | bare => cases hw : wordOf v <;> simp only [List.cons_append, MipsAsm.takeNumber, hw] <;> rfl
  | signed h =>
    have : MipsAsm.takeNumber (used ++ rest) = MipsAsm.takeSigned (used ++ rest) := by
      cases h <;> rfl
    rw [this, h.takeSigned]

/-- Operands that a slot takes are taken from the front of more. -/
lemma Slot.Reads.take {s : Slot} {n : Option Int} {used : List Operand} (h : s.Reads n used)
    (p : Parameters) (rest : List Operand) :
    ∃ f : Nat → Parameters,
      s.take p (used ++ rest) = (wordOfNumber n).map fun w => some (f w, rest) := by
  cases h with
  | first r => exact ⟨fun _ => _, rfl⟩
  | second r => exact ⟨fun _ => _, rfl⟩
  | third r => exact ⟨fun _ => _, rfl⟩
  | label l => exact ⟨fun _ => _, rfl⟩
  | base r => exact ⟨fun _ => _, rfl⟩
  | immediate h =>
    refine ⟨fun w => { p with immediate := w }, ?_⟩
    rw [Slot.take, h.takeNumber]
    exact wordOf_bind ..
  | offset h =>
    refine ⟨fun w => { p with offset := w }, ?_⟩
    rw [Slot.take, h.takeNumber]
    exact wordOf_bind ..
  | labelImmediate l h =>
    refine ⟨fun w => { p with label := some l, immediate := w }, ?_⟩
    rw [List.cons_append, Slot.take, h.takeSigned]
    exact wordOf_bind ..
  | labelOffset l h =>
    refine ⟨fun w => { p with label := some l, offset := w }, ?_⟩
    rw [List.cons_append, Slot.take, h.takeSigned]
    exact wordOf_bind ..

namespace Slot

variable {s : Slot} {ss : List Slot} {p p' q : Parameters} {ops rest : List Operand} {e : Fault}

lemma fill_cons_of_none (h : s.take p ops = .ok none) : fill (s :: ss) p ops = .ok none := by
  rw [fill, h]
  rfl

lemma fill_cons_of_error (h : s.take p ops = .error e) : fill (s :: ss) p ops = .error e := by
  rw [fill, h]
  rfl

lemma fill_cons_of_some (h : s.take p ops = .ok (some (p', rest))) :
    fill (s :: ss) p ops = fill ss p' rest := by
  rw [fill, h]
  rfl

/-- Operands that fill slots are all taken, and the first number among them fits in a word. -/
lemma readsAll_of_fill (h : fill ss p ops = .ok (some q)) :
    ReadsAll ss ops ∧ ∀ v, firstNumber? ops = some v → ∃ w, wordOf v = .ok w := by
  induction ss generalizing p ops with
  | nil =>
    cases ops with
    | nil => exact ⟨.nil, fun v hv => by cases hv⟩
    | cons op ops => cases h
  | cons s ss ih =>
    obtain ht | ⟨n, used, rest, hr, rfl, f, ht⟩ := take_cases s p ops
    · rw [fill_cons_of_none ht] at h
      cases h
    · cases hw : wordOfNumber n with
      | error e =>
        rw [hw] at ht
        rw [fill_cons_of_error ht] at h
        cases h
      | ok w =>
        rw [hw] at ht
        rw [fill_cons_of_some ht] at h
        obtain ⟨hrest, hfits⟩ := ih h
        refine ⟨.cons hr hrest, fun v hv => ?_⟩
        rw [hr.firstNumber?_append] at hv
        cases n with
        | none => exact hfits v hv
        | some v' =>
          cases hv
          exact ⟨w, hw⟩

/-- An attempt that fails has met the first number of the operands, which fits in no word. -/
lemma firstNumber?_of_fill_error (hn : ss.countP isNumeric ≤ 1) (h : fill ss p ops = .error e) :
    0 < ss.countP isNumeric ∧ ∃ v, firstNumber? ops = some v ∧ wordOf v = .error e := by
  induction ss generalizing p ops with
  | nil => cases ops <;> cases h
  | cons s ss ih =>
    obtain ht | ⟨n, used, rest, hr, rfl, f, ht⟩ := take_cases s p ops
    · rw [fill_cons_of_none ht] at h
      cases h
    · have hs := hr.isSome_number
      cases hw : wordOfNumber n with
      | error e' =>
        rw [hw] at ht
        rw [fill_cons_of_error ht] at h
        cases h
        cases n with
        | none => cases hw
        | some v =>
          refine ⟨?_, v, hr.firstNumber?_append rest, hw⟩
          rw [List.countP_cons_of_pos hs.symm]
          omega
      | ok w =>
        rw [hw] at ht
        rw [fill_cons_of_some ht] at h
        cases n with
        | none =>
          rw [List.countP_cons_of_neg (by simp [← hs])] at hn ⊢
          rw [hr.firstNumber?_append]
          exact ih hn h
        | some v =>
          -- the number is taken, so that the slots after it take none and do not fail
          rw [List.countP_cons_of_pos hs.symm] at hn
          have := (ih (by omega) h).1
          omega

/-- Slots without numbers take no number. -/
lemma ReadsAll.firstNumber?_eq_none (h : ReadsAll ss ops) (hn : ss.countP isNumeric = 0) :
    firstNumber? ops = none := by
  induction h with
  | nil => rfl
  | @cons s ss n used rest hr hs ih =>
    rw [List.countP_cons, ← hr.isSome_number] at hn
    rw [hr.firstNumber?_append, ih (by omega)]
    cases n with
    | none => rfl
    | some v => cases hn

/-- Operands that slots take fill them, if the number among them fits in a word. -/
lemma ReadsAll.fill (h : ReadsAll ss ops) (hn : ss.countP isNumeric ≤ 1)
    (hfits : ∀ v, firstNumber? ops = some v → ∃ w, wordOf v = .ok w) (p : Parameters) :
    ∃ q, Slot.fill ss p ops = .ok (some q) := by
  induction h generalizing p with
  | nil => exact ⟨p, rfl⟩
  | @cons s ss n used rest hr hs ih =>
    rw [List.countP_cons, ← hr.isSome_number] at hn
    rw [hr.firstNumber?_append] at hfits
    obtain ⟨f, ht⟩ := hr.take p rest
    cases n with
    | none =>
      rw [fill_cons_of_some ht]
      exact ih (by omega) hfits (f 0)
    | some v =>
      obtain ⟨w, hw⟩ := hfits v rfl
      have hnone := hs.firstNumber?_eq_none (Nat.le_zero.mp (Nat.le_of_succ_le_succ hn))
      rw [wordOfNumber, Option.elim, hw] at ht
      rw [fill_cons_of_some ht]
      exact ih (by omega) (by rw [hnone]; simp) (f w)

end Slot

/-- Operands fit a shape exactly if it takes all of them and the number among them fits in a
word. -/
lemma Shape.parameters?_eq_some_iff {s : Shape} {ops : List Operand} :
    (∃ p, s.parameters? ops = .ok (some p)) ↔
      s.Reads ops ∧ ∀ v, firstNumber? ops = some v → ∃ w, wordOf v = .ok w := by
  constructor
  · rintro ⟨p, h⟩
    exact Slot.readsAll_of_fill h
  · rintro ⟨h, hfits⟩
    exact Slot.ReadsAll.fill h s.countP_isNumeric_le hfits { shape := s }

/-! ### Outcomes -/

variable {s s' : Shape} {ops : List Operand}

/-- Shapes for which an attempt comes to anything come to the same. -/
lemma Shape.parameters?_agree (h : s.parameters? ops ≠ .ok none)
    (h' : s'.parameters? ops ≠ .ok none) : s.parameters? ops = s'.parameters? ops := by
  rcases hs : s.parameters? ops with e | _ | p
  -- a failure is for the first number, whatever the shape, and with that number no shape fits
  · have ⟨_, v, hv, hw⟩ := Slot.firstNumber?_of_fill_error s.countP_isNumeric_le hs
    rcases hs' : s'.parameters? ops with e' | _ | p'
    · have ⟨_, v', hv', hw'⟩ := Slot.firstNumber?_of_fill_error s'.countP_isNumeric_le hs'
      cases hv.symm.trans hv'
      exact congrArg _ (Except.error.inj (hw.symm.trans hw'))
    · exact absurd hs' h'
    · obtain ⟨w, hfits⟩ := (Slot.readsAll_of_fill hs').2 v hv
      cases hw.symm.trans hfits
  · exact absurd hs h
  · have ⟨hr, hfits⟩ := Slot.readsAll_of_fill hs
    rcases hs' : s'.parameters? ops with e' | _ | p'
    · have ⟨_, v, hv, hw⟩ := Slot.firstNumber?_of_fill_error s'.countP_isNumeric_le hs'
      obtain ⟨w, hw'⟩ := hfits v hv
      cases hw.symm.trans hw'
    · exact absurd hs' h'
    · cases Shape.Reads.unique hr (Slot.readsAll_of_fill hs').1
      exact hs.symm.trans hs'

lemma firstFit_eq_none {ss : List Shape} (h : ∀ s ∈ ss, s.parameters? ops = .ok none) :
    firstFit ops ss = .ok none := by
  induction ss with
  | nil => rfl
  | cons s ss ih =>
    rw [firstFit, h s List.mem_cons_self]
    exact ih fun s' hs' => h s' (List.mem_cons_of_mem s hs')

/-- The place of a shape in the order does not matter if it comes to anything. -/
lemma firstFit_eq_of_mem {ss : List Shape} (hs : s ∈ ss) (h : s.parameters? ops ≠ .ok none) :
    firstFit ops ss = s.parameters? ops := by
  induction ss with
  | nil => cases hs
  | cons s' ss ih =>
    by_cases h' : s'.parameters? ops = .ok none
    -- a shape that comes to nothing is passed over
    · have hss : s ∈ ss := by
        rcases List.mem_cons.mp hs with rfl | hss
        · exact absurd h' h
        · exact hss
      rw [firstFit, h']
      exact ih hss
    · -- the first one that comes to anything comes to the same as `s`
      rw [Shape.parameters?_agree h h', firstFit]
      rcases hp : s'.parameters? ops with e | _ | p
      · rfl
      · exact absurd hp h'
      · rfl

/-- More shapes do not change what some shapes come to. -/
lemma firstFit_mono {ss ss' : List Shape} (hss : ss ⊆ ss') (h : firstFit ops ss ≠ .ok none) :
    firstFit ops ss' = firstFit ops ss := by
  by_cases hall : ∀ s ∈ ss, s.parameters? ops = .ok none
  · exact absurd (firstFit_eq_none hall) h
  · push Not at hall
    obtain ⟨s, hs, hp⟩ := hall
    rw [firstFit_eq_of_mem hs hp, firstFit_eq_of_mem (hss hs) hp]

lemma firstFit_congr {ss ss' : List Shape} (hss : ss ⊆ ss') (hss' : ss' ⊆ ss) :
    firstFit ops ss = firstFit ops ss' := by
  by_cases h : firstFit ops ss = .ok none
  · by_cases h' : firstFit ops ss' = .ok none
    · rw [h, h']
    · exact firstFit_mono hss' h'
  · exact (firstFit_mono hss h).symm

/-- Operands fit one shape at most, and they fit it exactly if it takes them all and the number
among them fits in a word. What they come to, failures of abandoned attempts included, depends on no
order, and once they fit a shape they give the same parameters whatever else is admitted. -/
theorem matchInOrder_unambiguous {text : Text} {ops : List Operand} (h : operands text = .ok ops) :
    (∀ s s' : Shape, s.Reads ops → s'.Reads ops → s = s') ∧
    (∀ s : Shape, (∃ p, s.parameters? ops = .ok (some p)) ↔
      s.Reads ops ∧ ∀ v, firstNumber? ops = some v → ∃ w, wordOf v = .ok w) ∧
    (∀ order admitted : List Shape, order.Perm Shape.priority →
      matchInOrder order text admitted = matchOperands text admitted) ∧
    (∀ (admitted admitted' : List Shape) (p : Parameters), admitted ⊆ admitted' →
      matchOperands text admitted = .ok (some p) →
      matchOperands text admitted' = .ok (some p)) := by
  have hmatch (order admitted : List Shape) : matchInOrder order text admitted =
      (firstFit ops (order.filter admitted.contains)).mapError .fault := by
    rw [matchInOrder, h]
    rfl
  refine ⟨fun s s' => Shape.Reads.unique, fun s => Shape.parameters?_eq_some_iff, ?_, ?_⟩
  · intro order admitted horder
    rw [matchOperands, hmatch, hmatch]
    have hfilter := horder.filter admitted.contains
    rw [firstFit_congr hfilter.subset hfilter.symm.subset]
  · intro admitted admitted' p hsub hp
    rw [matchOperands, hmatch] at hp ⊢
    have hsubset : Shape.priority.filter admitted.contains ⊆
        Shape.priority.filter admitted'.contains := by
      intro s hs
      rw [List.mem_filter, List.contains_iff_mem] at hs ⊢
      exact ⟨hs.1, hsub hs.2⟩
    rw [firstFit_mono hsubset, hp]
    intro hnone
    rw [hnone] at hp
    cases hp

theorem matchInOrder_unambiguous_store :
    operands "$t0, x-4($sp)".toList =
      .ok [.register 8, .label ['x'], .minus, .number 4, .leftParen, .register 29, .rightParen] ∧
    Shape.priority.reverse.Perm Shape.priority ∧
    matchInOrder Shape.priority.reverse "$t0, x-4($sp)".toList Instruction.memory =
      matchOperands "$t0, x-4($sp)".toList Instruction.memory ∧
    matchOperands "$t0, x-4($sp)".toList [.regLabelOffsetBase] =
      .ok (some { shape := .regLabelOffsetBase, reg1 := some 8, reg2 := some 29,
                  label := some ['x'], offset := 0xFFFFFFFC }) ∧
    matchOperands "$t0, x-4($sp)".toList Shape.all =
      .ok (some { shape := .regLabelOffsetBase, reg1 := some 8, reg2 := some 29,
                  label := some ['x'], offset := 0xFFFFFFFC }) := by
  have h : operands "$t0, x-4($sp)".toList =
      .ok [.register 8, .label ['x'], .minus, .number 4, .leftParen, .register 29,
        .rightParen] := by decide +kernel
  have hp : matchOperands "$t0, x-4($sp)".toList [.regLabelOffsetBase] =
      .ok (some { shape := .regLabelOffsetBase, reg1 := some 8, reg2 := some 29,
                  label := some ['x'], offset := 0xFFFFFFFC }) := by decide +kernel
  obtain ⟨-, -, horder, hmono⟩ := matchInOrder_unambiguous h
  exact ⟨h, List.reverse_perm _, horder _ _ (List.reverse_perm _), hp,
    hmono _ _ _ (by decide) hp⟩

end MipsAsm
