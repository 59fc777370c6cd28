import MipsAsm.Operand.Match
import MipsAsm.Proofs.Number.Word
import MipsAsm.Proofs.Operand.Rules

/-!
# What slots put into parameters

Parameters are filled slot by slot. What one slot puts into them is `Slot.Puts`; what they are once
the slots of a shape are filled is `Parameters.FilledBy`: a parameter is present exactly if one of
the slots is for it, labels are identifiers, and numbers are words.
-/

namespace MipsAsm

open Scan

-- powers are the ones that numbers have, not those of a monoid
attribute [local instance(2000)] instPowNat

/-! ### Labels among operands -/

/-- What the rule for labels takes is an identifier. -/
lemma isIdentifier_take_extent {t : Text} (h : 0 < Rule.extent .label t) :
    isIdentifier (t.take (Rule.extent .label t)) := by
  cases t with
  | nil => cases h
  | cons c t =>
    rw [Rule.extent] at h ⊢
    split at h
    · next hc =>
      have htake : t.take (runLength isIdentifierPart t) = t.takeWhile isIdentifierPart :=
        (List.prefix_iff_eq_take.mp (List.takeWhile_prefix _)).symm
      rw [if_pos hc, List.take_succ_cons, htake, isIdentifier, hc, Bool.true_and]
      exact List.all_takeWhile
    · cases h

/-- Only the rule for labels makes labels. -/
lemma Rule.eq_label_of_operand {rule : Rule} {w l : Text} (h : rule.operand w = .ok (.label l)) :
    rule = .label ∧ l = w := by
  cases rule with
  | label =>
    cases h
    exact ⟨rfl, rfl⟩
  | register =>
    rw [Rule.operand] at h
    cases hr : Register.read w <;> rw [hr] at h <;> cases h
  | number =>
    rw [Rule.operand] at h
    cases hn : Number.readImmediate w <;> rw [hn] at h <;> cases h
  | _ => cases h

lemma Lexed.isIdentifier {offset : Nat} {t l : Text} {ls : List Lexeme} (h : Lexed offset t ls)
    (hl : .label l ∈ ls.map Lexeme.operand) : isIdentifier l := by
  induction h with
  | nil => cases hl
  | spacing _ _ ih => exact ih hl
  | @operand _ rule w t _ _ htakes hoperand _ ih =>
    rcases List.mem_cons.mp hl with heq | hmem
    · cases heq
      obtain ⟨rfl, rfl⟩ := Rule.eq_label_of_operand hoperand
      have := isIdentifier_take_extent (Rule.extent_pos_of_first? htakes.first)
      rwa [htakes.extent, List.take_left] at this
    · exact ih hmem

/-- The labels among the operands of a text are identifiers. -/
lemma isIdentifier_of_mem_operands {t l : Text} {ops : List Operand} (h : operands t = .ok ops)
    (hl : .label l ∈ ops) : isIdentifier l := by
  rw [operands] at h
  cases hlex : lexOperands t with
  | error e =>
    rw [hlex] at h
    cases h
  | ok ls =>
    rw [hlex] at h
    cases h
    exact (lexed_of_lexFrom hlex).isIdentifier hl

/-! ### One slot -/

lemma wordOf_lt {v : Int} {w : Nat} (h : wordOf v = .ok w) : w < 2 ^ (32 : Nat) :=
  Number.toWord_lt h

lemma takeSigned_some {ops rest : List Operand} {w : Nat}
    (h : takeSigned ops = .ok (some (w, rest))) : w < 2 ^ (32 : Nat) ∧ rest ⊆ ops := by
  unfold takeSigned at h
  split at h
  -- behind a plus the number as it is, behind a minus its negative
  · next v ops =>
    cases hw : wordOf v <;> rw [hw] at h <;> cases h
    exact ⟨wordOf_lt hw, fun op hop => by simp [hop]⟩
  · next v ops =>
    cases hw : wordOf (-v) <;> rw [hw] at h <;> cases h
    exact ⟨wordOf_lt hw, fun op hop => by simp [hop]⟩
  · cases h

lemma takeNumber_some {ops rest : List Operand} {w : Nat}
    (h : takeNumber ops = .ok (some (w, rest))) : w < 2 ^ (32 : Nat) ∧ rest ⊆ ops := by
  unfold takeNumber at h
  split at h
  · next v ops =>
    cases hw : wordOf v <;> rw [hw] at h <;> cases h
    exact ⟨wordOf_lt hw, fun op hop => by simp [hop]⟩
  · exact takeSigned_some h

namespace Slot

/-- What a slot puts into parameters: a register, a word, an identifier, or an identifier with a
word. -/
inductive Puts (p : Parameters) : Slot → Parameters → Prop where
  | first (r : Register) : Puts p .first { p with reg1 := some r }
  | second (r : Register) : Puts p .second { p with reg2 := some r }
  | third (r : Register) : Puts p .third { p with reg3 := some r }
  | base (r : Register) : Puts p .base { p with reg2 := some r }
  | immediate {w : Nat} (hw : w < 2 ^ (32 : Nat)) : Puts p .immediate { p with immediate := w }
  | offset {w : Nat} (hw : w < 2 ^ (32 : Nat)) : Puts p .offset { p with offset := w }
  | label {l : Text} (hl : isIdentifier l) : Puts p .label { p with label := some l }
  | labelImmediate {l : Text} {w : Nat} (hl : isIdentifier l) (hw : w < 2 ^ (32 : Nat)) :
      Puts p .labelImmediate { p with label := some l, immediate := w }
  | labelOffset {l : Text} {w : Nat} (hl : isIdentifier l) (hw : w < 2 ^ (32 : Nat)) :
      Puts p .labelOffset { p with label := some l, offset := w }

variable {s : Slot} {ss : List Slot} {p q : Parameters} {ops rest : List Operand}

/-- A slot that is filled from some operands. -/
lemma puts_of_take (h : s.take p ops = .ok (some (q, rest)))
    (hops : ∀ l, .label l ∈ ops → isIdentifier l) : s.Puts p q ∧ rest ⊆ ops := by
  unfold take at h
  split at h
  · cases h
    exact ⟨.first _, List.subset_cons_self _ _⟩
  · cases h
    exact ⟨.second _, List.subset_cons_self _ _⟩
  · cases h
    exact ⟨.third _, List.subset_cons_self _ _⟩
  · rcases ht : takeNumber ops with e | _ | ⟨w, ops'⟩ <;> rw [ht] at h <;> cases h
    obtain ⟨hw, hsub⟩ := takeNumber_some ht
    exact ⟨.immediate hw, hsub⟩
  · rcases ht : takeNumber ops with e | _ | ⟨w, ops'⟩ <;> rw [ht] at h <;> cases h
    obtain ⟨hw, hsub⟩ := takeNumber_some ht
    exact ⟨.offset hw, hsub⟩
  · cases h
    exact ⟨.label (hops _ List.mem_cons_self), List.subset_cons_self _ _⟩
  · next l ops =>
    rcases ht : takeSigned ops with e | _ | ⟨w, ops'⟩ <;> rw [ht] at h <;> cases h
    obtain ⟨hw, hsub⟩ := takeSigned_some ht
    exact ⟨.labelImmediate (hops l List.mem_cons_self) hw, List.subset_cons_of_subset _ hsub⟩
  · next l ops =>
    rcases ht : takeSigned ops with e | _ | ⟨w, ops'⟩ <;> rw [ht] at h <;> cases h
    obtain ⟨hw, hsub⟩ := takeSigned_some ht
    exact ⟨.labelOffset (hops l List.mem_cons_self) hw, List.subset_cons_of_subset _ hsub⟩
  · cases h
    exact ⟨.base _, fun op hop => by simp [hop]⟩
  · cases h

end Slot

/-! ### All slots -/

/-- Parameters that some slots have filled. Registers are below 32 by their type. -/
structure Parameters.FilledBy (ss : List Slot) (p : Parameters) : Prop where
  reg1         : p.reg1.isSome ↔ .first ∈ ss
  reg2         : p.reg2.isSome ↔ .second ∈ ss ∨ .base ∈ ss
  reg3         : p.reg3.isSome ↔ .third ∈ ss
  label        : p.label.isSome ↔ .label ∈ ss ∨ .labelImmediate ∈ ss ∨ .labelOffset ∈ ss
  identifier   : ∀ l ∈ p.label, isIdentifier l
  immediate_lt : p.immediate < 2 ^ (32 : Nat)
  immediate_eq : .immediate ∉ ss → .labelImmediate ∉ ss → p.immediate = 0
  offset_lt    : p.offset < 2 ^ (32 : Nat)
  offset_eq    : .offset ∉ ss → .labelOffset ∉ ss → p.offset = 0

/-- Nothing is filled yet. -/
lemma Parameters.filledBy_nil (s : Shape) : FilledBy [] { shape := s } := by
  constructor <;> simp

namespace Slot

variable {s : Slot} {ss ss' : List Slot} {p q : Parameters} {ops : List Operand}

/-- One more slot is filled. -/
lemma Puts.filledBy (h : s.Puts p q) (hp : p.FilledBy ss) : q.FilledBy (ss ++ [s]) := by
  obtain ⟨hreg1, hreg2, hreg3, hlabel, hid, hilt, hieq, holt, hoeq⟩ := hp
  cases h <;> constructor <;> simp_all

/-- No slot is for the shape or for the index of a label. -/
lemma Puts.frame (h : s.Puts p q) : q.shape = p.shape ∧ q.resolved = p.resolved := by
  cases h <;> exact ⟨rfl, rfl⟩

/-- Slots that are filled one after the other. -/
lemma filledBy_of_fill (h : fill ss p ops = .ok (some q))
    (hops : ∀ l, .label l ∈ ops → isIdentifier l) (hp : p.FilledBy ss') :
    q.FilledBy (ss' ++ ss) ∧ q.shape = p.shape ∧ q.resolved = p.resolved := by
  induction ss generalizing p ops ss' with
  | nil =>
    cases ops with
    | nil =>
      cases h
      rw [List.append_nil]
      exact ⟨hp, rfl, rfl⟩
    | cons op ops => cases h
  | cons s ss ih =>
    rw [fill] at h
    rcases ht : s.take p ops with e | _ | ⟨p', rest⟩ <;> rw [ht] at h
    · cases h
    · cases h
    · obtain ⟨hputs, hsub⟩ := puts_of_take ht hops
      obtain ⟨hfilled, hshape, hresolved⟩ :=
        ih h (fun l hl => hops l (hsub hl)) (hputs.filledBy hp)
      rw [List.append_assoc, List.singleton_append] at hfilled
      exact ⟨hfilled, hshape.trans hputs.frame.1, hresolved.trans hputs.frame.2⟩

end Slot

/-! ### Matches -/

lemma firstFit_some {ops : List Operand} {ss : List Shape} {p : Parameters}
    (h : firstFit ops ss = .ok (some p)) : ∃ s ∈ ss, s.parameters? ops = .ok (some p) := by
  induction ss with
  | nil => cases h
  | cons s ss ih =>
    rw [firstFit] at h
    rcases hs : s.parameters? ops with e | _ | p' <;> rw [hs] at h
    · cases h
    · obtain ⟨s', hmem, hs'⟩ := ih h
      exact ⟨s', List.mem_cons_of_mem s hmem, hs'⟩
    · cases h
      exact ⟨s, List.mem_cons_self, hs⟩

/-- Parameters that match have a shape that is admitted, and its slots have filled them. -/
lemma filledBy_of_matchOperands {text : Text} {admitted : List Shape} {p : Parameters}
    (h : matchOperands text admitted = .ok (some p)) :
    p.shape ∈ admitted ∧ p.FilledBy p.shape.slots ∧ p.resolved = none := by
  rw [matchOperands, matchInOrder] at h
  cases hops : operands text with
  | error e =>
    rw [hops] at h
    cases h
  | ok ops =>
    rw [hops] at h
    cases hfit : firstFit ops (Shape.priority.filter admitted.contains) with
    | error e =>
      simp only [bind, Except.bind, hfit] at h
      cases h
    | ok found =>
      simp only [bind, Except.bind, hfit] at h
      cases h
      obtain ⟨s, hs, hp⟩ := firstFit_some hfit
      obtain ⟨hfilled, hshape, hresolved⟩ := Slot.filledBy_of_fill hp
        (fun l hl => isIdentifier_of_mem_operands hops hl) (Parameters.filledBy_nil s)
      rw [hshape]
      exact ⟨List.contains_iff_mem.mp (List.mem_filter.mp hs).2, hfilled, hresolved⟩

end MipsAsm
