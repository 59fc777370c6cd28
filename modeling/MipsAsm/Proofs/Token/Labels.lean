import Mathlib.Data.List.Nodup
import MipsAsm.Proofs.Token.Origin

/-!
# Labels of a program

A program that is read has tokens exactly if no label is defined twice, and then the label of an
instruction is resolved to the index of the token that defines it. Otherwise the failure is that of
the first label whose name is taken (`tokenize_labels`).
-/

namespace MipsAsm

lemma Statement.labelName?_eq_some_iff {s : Statement} {name : Text} :
    s.labelName? = some name ↔ s = .label name := by
  cases s <;> simp [labelName?]

namespace Token

variable {t : Token} {ts : List Token} {seen : List Text} {name : Text} {n k : Nat}

/-- The names that tokens define, in order. -/
def labels (ts : List Token) : List Text := ts.filterMap (·.statement.labelName?)

@[simp] lemma labels_nil : labels [] = [] := rfl

lemma labels_cons_of_some (h : t.statement.labelName? = some name) :
    labels (t :: ts) = name :: labels ts := List.filterMap_cons_some h

lemma labels_cons_of_none (h : t.statement.labelName? = none) : labels (t :: ts) = labels ts :=
  List.filterMap_cons_none h

lemma mem_labels_iff : name ∈ labels ts ↔ ∃ k n : Nat, ts[k]? = some ⟨n, .label name⟩ := by
  rw [labels, List.mem_filterMap]
  constructor
  · rintro ⟨t, ht, hname⟩
    obtain ⟨k, hk⟩ := List.getElem?_of_mem ht
    exact ⟨k, t.line, by rw [hk, ← Statement.labelName?_eq_some_iff.mp hname]⟩
  · rintro ⟨k, n, hk⟩
    exact ⟨_, List.mem_of_getElem? hk, rfl⟩

/-! ### Names that are taken -/

lemma duplicateLabel?_cons_of_none (h : t.statement.labelName? = none) :
    duplicateLabel? seen (t :: ts) = duplicateLabel? seen ts := by
  obtain ⟨n, statement⟩ := t
  cases statement with
  | label name => cases h
  | directive d arguments data => rfl
  | instruction w i p => rfl

/-- No name is taken if the names are pairwise distinct and not among those that were seen. -/
lemma duplicateLabel?_eq_none_iff :
    duplicateLabel? seen ts = none ↔ (labels ts).Nodup ∧ ∀ name ∈ labels ts, name ∉ seen := by
  induction ts generalizing seen with
  | nil => simp [duplicateLabel?]
  | cons t ts ih =>
    cases hlabel : t.statement.labelName? with
    | none => rw [duplicateLabel?_cons_of_none hlabel, labels_cons_of_none hlabel, ih]
    | some name =>
      obtain ⟨n, statement⟩ := t
      rw [labels_cons_of_some hlabel, List.nodup_cons, List.forall_mem_cons]
      cases Statement.labelName?_eq_some_iff.mp hlabel
      rw [duplicateLabel?]
      split
      · next hseen => simp [List.contains_iff_mem.mp hseen]
      · next hseen =>
        rw [List.contains_iff_mem] at hseen
        rw [ih]
        simp only [List.mem_cons, not_or]
        constructor
        · rintro ⟨hnodup, hnot⟩
          exact ⟨⟨fun hmem => (hnot name hmem).1 rfl, hnodup⟩, hseen, fun l hl => (hnot l hl).2⟩
        · rintro ⟨⟨hname, hnodup⟩, -, hnot⟩
          exact ⟨hnodup, fun l hl => ⟨ne_of_mem_of_not_mem hl hname, hnot l hl⟩⟩

/-- The label that is found is the first whose name is taken. -/
lemma eq_append_of_duplicateLabel? (h : duplicateLabel? seen ts = some (n, name)) :
    ∃ before after, ts = before ++ ⟨n, .label name⟩ :: after ∧ (labels before).Nodup ∧
      (∀ l ∈ labels before, l ∉ seen) ∧ (name ∈ labels before ∨ name ∈ seen) := by
  induction ts generalizing seen with
  | nil => cases h
  | cons t ts ih =>
    cases hlabel : t.statement.labelName? with
    | none =>
      rw [duplicateLabel?_cons_of_none hlabel] at h
      obtain ⟨before, after, rfl, hbefore⟩ := ih h
      refine ⟨t :: before, after, rfl, ?_⟩
      rwa [labels_cons_of_none hlabel]
    | some name' =>
      obtain ⟨n', statement⟩ := t
      cases Statement.labelName?_eq_some_iff.mp hlabel
      rw [duplicateLabel?] at h
      split at h
      · next hseen =>
        cases h
        exact ⟨[], ts, rfl, List.nodup_nil, fun l hl => absurd hl List.not_mem_nil,
          .inr (List.contains_iff_mem.mp hseen)⟩
      · next hseen =>
        rw [List.contains_iff_mem] at hseen
        obtain ⟨before, after, rfl, hnodup, hnot, htaken⟩ := ih h
        simp only [List.mem_cons, not_or] at hnot htaken
        refine ⟨⟨n', .label name'⟩ :: before, after, rfl, ?_⟩
        rw [labels_cons_of_some hlabel, List.nodup_cons, List.forall_mem_cons, List.mem_cons]
        refine ⟨⟨fun hmem => (hnot name' hmem).1 rfl, hnodup⟩,
          ⟨hseen, fun l hl => (hnot l hl).2⟩, ?_⟩
        tauto

/-! ### Resolution -/

lemma labelIndex?_eq_none_iff : labelIndex? ts name = none ↔ name ∉ labels ts := by
  simp [labelIndex?, labels, List.findIdx?_eq_none_iff]

/-- Where names are pairwise distinct, a name has the index of the one token that defines it. -/
lemma labelIndex?_eq_some_iff (h : (labels ts).Nodup) :
    labelIndex? ts name = some k ↔ ∃ n, ts[k]? = some ⟨n, .label name⟩ := by
  induction ts generalizing k with
  | nil => simp [labelIndex?]
  | cons t ts ih =>
    rw [labelIndex?, List.findIdx?_cons]
    by_cases ht : t.statement.labelName? = some name
    · rw [if_pos (by simpa using ht)]
      rw [labels_cons_of_some ht, List.nodup_cons] at h
      obtain ⟨n, statement⟩ := t
      cases Statement.labelName?_eq_some_iff.mp ht
      cases k with
      | zero => simp
      | succ k =>
        simp only [List.getElem?_cons_succ]
        constructor
        · nofun
        · rintro ⟨m, hm⟩
          -- a second token with the name would make it occur twice
          exact absurd (mem_labels_iff.mpr ⟨k, m, hm⟩) h.1
    · rw [if_neg (by simpa using ht)]
      have htail : (labels ts).Nodup := h.sublist ((List.sublist_cons_self t ts).filterMap _)
      cases k with
      | zero =>
        constructor
        · simp
        · rintro ⟨n, hn⟩
          cases hn
          exact absurd rfl ht
      | succ k =>
        rw [List.getElem?_cons_succ, ← ih htail, labelIndex?]
        simp

/-- Resolving does not touch labels. -/
@[simp] lemma labelName?_resolve (program : List Token) (t : Token) :
    (t.resolve program).statement.labelName? = t.statement.labelName? := by
  obtain ⟨n, statement⟩ := t
  cases statement <;> rfl

lemma labels_map_resolve (program ts : List Token) :
    labels (ts.map (resolve program)) = labels ts := by
  rw [labels, List.filterMap_map]
  exact congrArg (List.filterMap · ts) (funext fun t => labelName?_resolve program t)

lemma labelIndex?_map_resolve (program ts : List Token) :
    labelIndex? (ts.map (resolve program)) name = labelIndex? ts name := by
  rw [labelIndex?, labelIndex?, List.findIdx?_map]
  simp [Function.comp_def]

end Token

/-- The label of an instruction is resolved: it has the index of the token that defines it, and none
if there is no such token or no label. -/
structure Parameters.ResolvedIn (ts : List Token) (p : Parameters) : Prop where
  some_iff : ∀ name, p.label = some name →
    ∀ k, p.resolved = some k ↔ ∃ n, ts[k]? = some ⟨n, .label name⟩
  none_iff : ∀ name, p.label = some name → (p.resolved = none ↔ name ∉ Token.labels ts)
  unlabelled : p.label = none → p.resolved = none

namespace Token

variable {ts : List Token}

/-- An instruction of a program whose labels are resolved. -/
lemma resolvedIn_of_mem (h : (labels ts).Nodup) {n : Nat} {w : Text} {i : Instruction}
    {p : Parameters} (hmem : ⟨n, .instruction w i p⟩ ∈ ts.map (resolve ts)) :
    p.ResolvedIn (ts.map (resolve ts)) := by
  obtain ⟨⟨n', statement⟩, -, ht⟩ := List.mem_map.mp hmem
  cases statement with
  | label name => cases ht
  | directive d arguments data => cases ht
  | instruction w' i' p' =>
    cases ht
    have hnodup : (labels (ts.map (resolve ts))).Nodup := by rwa [labels_map_resolve]
    refine ⟨fun name hname k => ?_, fun name hname => ?_, fun hnone => ?_⟩
    · dsimp only at hname ⊢
      rw [hname, Option.bind_some, ← labelIndex?_map_resolve ts, labelIndex?_eq_some_iff hnodup]
    · dsimp only at hname ⊢
      rw [hname, Option.bind_some, ← labelIndex?_map_resolve ts, labelIndex?_eq_none_iff]
    · dsimp only at hnone ⊢
      rw [hnone, Option.bind_none]

end Token

/-- The labels of a program are pairwise distinct, and those of its instructions are resolved,
whether they are defined before or after. A text that is read is a program unless a label is defined
twice; then the first label whose name occurs before it is told, with its line. -/
theorem tokenize_labels (t : Text) :
    (∀ ts, tokenize t = .ok ts →
      (Token.labels ts).Nodup ∧
      ∀ n w i p, ⟨n, .instruction w i p⟩ ∈ ts → p.ResolvedIn ts) ∧
    (∀ read, (Lexer.readText t).result = .ok () → (Lexer.readText t).state.tokens.toList = read →
      ((Token.labels read).Nodup → ∃ ts, tokenize t = .ok ts) ∧
      (¬ (Token.labels read).Nodup →
        ∃ before n name after, read = before ++ ⟨n, .label name⟩ :: after ∧
          (Token.labels before).Nodup ∧ name ∈ Token.labels before ∧
          tokenize t = .error (.diagnosed ⟨.duplicateLabel name, .line n⟩) ∧
          (Fault.duplicateLabel name).kind = .invalidSyntax)) := by
  constructor
  · intro ts h
    obtain ⟨-, hresolve⟩ := Lexer.tokenize_eq_ok_iff.mp h
    obtain ⟨hnone, rfl⟩ := Token.resolveLabels_eq_ok_iff.mp hresolve
    have hnodup := (Token.duplicateLabel?_eq_none_iff.mp hnone).1
    refine ⟨?_, fun n w i p => Token.resolvedIn_of_mem hnodup⟩
    rwa [Token.labels_map_resolve]
  · rintro read hread rfl
    refine ⟨fun hnodup => ?_, fun hdup => ?_⟩
    · have hnone := Token.duplicateLabel?_eq_none_iff.mpr ⟨hnodup, fun _ _ => List.not_mem_nil⟩
      exact ⟨_, Lexer.tokenize_eq_ok_iff.mpr
        ⟨hread, Token.resolveLabels_eq_ok_iff.mpr ⟨hnone, rfl⟩⟩⟩
    · cases hfound : Token.duplicateLabel? [] (Lexer.readText t).state.tokens.toList with
      | none => exact absurd (Token.duplicateLabel?_eq_none_iff.mp hfound).1 hdup
      | some found =>
        obtain ⟨n, name⟩ := found
        obtain ⟨before, after, htokens, hnodup, -, htaken⟩ :=
          Token.eq_append_of_duplicateLabel? hfound
        have htaken : name ∈ Token.labels before := htaken.resolve_right List.not_mem_nil
        refine ⟨before, n, name, after, htokens, hnodup, htaken, ?_, rfl⟩
        rw [Lexer.tokenize_of_readText_ok hread, Token.resolveLabels, hfound]
        dsimp only
        rw [Diagnostic.atLine_of_line rfl]

/-- A label that is defined after its use, behind a directive that yields no token; and two labels
that are defined twice. -/
theorem tokenize_labels_forward :
    tokenize "a: b: j c\n.set at\nc: j a".toList = .ok
      [⟨1, .label ['a']⟩, ⟨1, .label ['b']⟩,
        ⟨1, .instruction ['j'] (.machine "j" [.imm, .label])
          { shape := .label, label := some ['c'], resolved := some 3 }⟩,
        ⟨3, .label ['c']⟩,
        ⟨3, .instruction ['j'] (.machine "j" [.imm, .label])
          { shape := .label, label := some ['a'], resolved := some 0 }⟩] ∧
    [['a'], ['b'], ['c']].Nodup ∧
    (Lexer.readText "x: y:\ny: z:\nx:".toList).result = .ok () ∧
    (Lexer.readText "x: y:\ny: z:\nx:".toList).state.tokens.toList =
      [⟨1, .label ['x']⟩, ⟨1, .label ['y']⟩, ⟨2, .label ['y']⟩, ⟨2, .label ['z']⟩,
        ⟨3, .label ['x']⟩] ∧
    ¬ [['x'], ['y'], ['y'], ['z'], ['x']].Nodup ∧
    ∃ before n name after,
      [⟨1, .label ['x']⟩, ⟨1, .label ['y']⟩, ⟨2, .label ['y']⟩, ⟨2, .label ['z']⟩,
        ⟨3, .label ['x']⟩] = before ++ ⟨n, .label name⟩ :: after ∧
      (Token.labels before).Nodup ∧ name ∈ Token.labels before ∧
      tokenize "x: y:\ny: z:\nx:".toList =
        .error (.diagnosed ⟨.duplicateLabel name, .line n⟩) ∧
      (Fault.duplicateLabel name).kind = .invalidSyntax := by
  have h : tokenize "a: b: j c\n.set at\nc: j a".toList = .ok
      [⟨1, .label ['a']⟩, ⟨1, .label ['b']⟩,
        ⟨1, .instruction ['j'] (.machine "j" [.imm, .label])
          { shape := .label, label := some ['c'], resolved := some 3 }⟩,
        ⟨3, .label ['c']⟩,
        ⟨3, .instruction ['j'] (.machine "j" [.imm, .label])
          { shape := .label, label := some ['a'], resolved := some 0 }⟩] := by
    decide +kernel
  have hread : (Lexer.readText "x: y:\ny: z:\nx:".toList).result = .ok () := by decide +kernel
  have htokens : (Lexer.readText "x: y:\ny: z:\nx:".toList).state.tokens.toList =
      [⟨1, .label ['x']⟩, ⟨1, .label ['y']⟩, ⟨2, .label ['y']⟩, ⟨2, .label ['z']⟩,
        ⟨3, .label ['x']⟩] := by
    decide +kernel
  have hdup : ¬ [['x'], ['y'], ['y'], ['z'], ['x']].Nodup := by decide
  exact ⟨h, ((tokenize_labels _).1 _ h).1, hread, htokens, hdup,
    ((tokenize_labels _).2 _ hread htokens).2 hdup⟩

end MipsAsm
