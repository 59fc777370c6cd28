import MipsAsm.Macro.Basic
import Mathlib.Data.List.Nodup
import Mathlib.Tactic.Common

/-!
# Arguments for parameters

A macro is instantiated in one scan of its body: wherever parameters are used, the longest of them
gives way to its argument, and the scan goes on behind it. `Macro.Substituted` says so without
regard to how the scan works; it determines what comes out, and neither the order of the parameters
nor what the arguments say has a part in it (`Macro.instantiate_substitutes`).
-/

namespace MipsAsm.Macro

/-- A parameter is used at the beginning of a text: it stands there, and no word character behind
it. -/
def UsedAt (parameter t : Text) : Prop :=
  ∃ rest, t = parameter ++ rest ∧ ∀ c ∈ rest.head?, ¬ isWordChar c

/-- The second text is the first one with arguments for the parameters that are used in it. What an
argument says is not looked at. -/
inductive Substituted (pairs : List (Text × Text)) : Text → Text → Prop where
  | nil : Substituted pairs [] []
  /-- The longest parameter that is used gives way to its argument. -/
  | use {parameter argument t u : Text} (hpair : (parameter, argument) ∈ pairs)
      (hused : UsedAt parameter (parameter ++ t))
      (hlongest : ∀ p ∈ pairs, UsedAt p.1 (parameter ++ t) → p.1.length ≤ parameter.length)
      (ht : Substituted pairs t u) : Substituted pairs (parameter ++ t) (argument ++ u)
  /-- Where no parameter is used, a character stays. -/
  | copy {c : Char} {t u : Text} (hnone : ∀ p ∈ pairs, ¬ UsedAt p.1 (c :: t))
      (ht : Substituted pairs t u) : Substituted pairs (c :: t) (c :: u)

/-! ### Uses -/

lemma occurs_iff_usedAt {p t : Text} : occurs t p ↔ UsedAt p t := by
  constructor
  · intro h
    rw [occurs] at h
    split at h
    · next c r hr =>
      refine ⟨c :: r, Text.eq_append_of_after? hr, ?_⟩
      rintro _ ⟨⟩
      simpa using h
    · next hr => exact ⟨[], Text.eq_append_of_after? hr, nofun⟩
    · cases h
  · rintro ⟨rest, rfl, hend⟩
    rw [occurs, Text.after?_append]
    cases rest with
    | nil => rfl
    | cons c r => simpa using hend c rfl

/-- Parameters of one length that are used at the same place are the same. -/
lemma UsedAt.eq_of_length_eq {p q t : Text} (hp : UsedAt p t) (hq : UsedAt q t)
    (h : p.length = q.length) : p = q := by
  obtain ⟨r, rfl, -⟩ := hp
  obtain ⟨r', heq, -⟩ := hq
  exact List.append_inj_left heq h

/-! ### The longest parameter -/

lemma foldl_longer_some (p : Text) (ps : List Text) :
    ∃ q, ps.foldl longer (some p) = some q ∧ q ∈ p :: ps ∧ ∀ r ∈ p :: ps, r.length ≤ q.length := by
  induction ps generalizing p with
  | nil => exact ⟨p, rfl, List.mem_cons_self, by simp⟩
  | cons p' ps ih =>
    rw [List.foldl_cons, longer]
    -- the first of the longest is kept: a later one must be longer
    by_cases h : p.length < p'.length
    · obtain ⟨q, hq, hmem, hmax⟩ := ih p'
      have hle := hmax p' List.mem_cons_self
      rw [if_pos h]
      refine ⟨q, hq, List.mem_cons_of_mem p hmem, ?_⟩
      rw [List.forall_mem_cons]
      exact ⟨by omega, hmax⟩
    · obtain ⟨q, hq, hmem, hmax⟩ := ih p
      rw [List.forall_mem_cons] at hmax
      rw [if_neg h]
      refine ⟨q, hq, ?_, ?_⟩
      · rcases List.mem_cons.mp hmem with rfl | hmem
        · exact List.mem_cons_self
        · exact List.mem_cons_of_mem p (List.mem_cons_of_mem p' hmem)
      · rw [List.forall_mem_cons, List.forall_mem_cons]
        exact ⟨hmax.1, by omega, hmax.2⟩

section

variable {ps : List Text} {p t : Text}

lemma mem_filter_occurs : p ∈ ps.filter (occurs t) ↔ p ∈ ps ∧ UsedAt p t := by
  rw [List.mem_filter, occurs_iff_usedAt]

/-- The parameter at a place is the longest one that is used there. -/
lemma of_parameterAt? (h : parameterAt? ps t = some p) :
    p ∈ ps ∧ UsedAt p t ∧ ∀ q ∈ ps, UsedAt q t → q.length ≤ p.length := by
  have hmem {q : Text} : q ∈ ps.filter (occurs t) ↔ q ∈ ps ∧ UsedAt q t := mem_filter_occurs
  rw [parameterAt?] at h
  generalize ps.filter (occurs t) = used at h hmem
  cases used with
  | nil => cases h
  | cons p' used =>
    obtain ⟨q, hq, hqmem, hmax⟩ := foldl_longer_some p' used
    obtain rfl : q = p := Option.some.inj (hq.symm.trans h)
    obtain ⟨hparameter, hused⟩ := hmem.mp hqmem
    exact ⟨hparameter, hused, fun r hr hru => hmax r (hmem.mpr ⟨hr, hru⟩)⟩

lemma not_usedAt_of_parameterAt? (h : parameterAt? ps t = none) : ∀ q ∈ ps, ¬ UsedAt q t := by
  intro q hq hused
  have hmem := mem_filter_occurs.mpr ⟨hq, hused⟩
  rw [parameterAt?] at h
  generalize ps.filter (occurs t) = used at h hmem
  cases used with
  | nil => cases hmem
  | cons p' used =>
    obtain ⟨r, hr, -⟩ := foldl_longer_some p' used
    cases hr.symm.trans h

lemma mem_parameters_of_mem_partsFrom {skip : Nat} (h : .use p ∈ partsFrom ps skip t) : p ∈ ps := by
  fun_induction partsFrom ps skip t with
  | case1 skip c r ih => exact ih h  -- a character of a parameter in use is passed over
  | case2 skip q hq =>
    cases List.mem_singleton.mp h
    exact (of_parameterAt? hq).1
  | case3 => cases h
  | case4 c r hq ih =>
    rcases List.mem_cons.mp h with heq | h
    · cases heq
      exact (of_parameterAt? hq).1
    · rcases List.mem_cons.mp h with heq | h
      · cases heq
      · exact ih h
  | case5 c r d q hq ih =>
    rcases List.mem_cons.mp h with heq | h
    · cases heq
      exact (of_parameterAt? hq).1
    · exact ih h
  | case6 c r hq ih =>
    rcases List.mem_cons.mp h with heq | h
    · cases heq
    · exact ih h

end

/-! ### Arguments -/

lemma lookup_of_mem {pairs : List (Text × Text)} (hnodup : (pairs.map Prod.fst).Nodup)
    {p a : Text} (h : (p, a) ∈ pairs) : pairs.lookup p = some a := by
  obtain ⟨before, after, rfl⟩ := List.append_of_mem h
  rw [List.lookup_eq_some_iff]
  refine ⟨before, after, rfl, fun q hq => ?_⟩
  rw [List.map_append, List.nodup_append] at hnodup
  have hne := hnodup.2.2 q.1 (List.mem_map_of_mem hq) p List.mem_cons_self
  simpa using Ne.symm hne

section

variable {m : Macro} {arguments : List Text}

lemma map_fst_zip_arguments (hlength : arguments.length = m.parameters.length) :
    (m.parameters.zip arguments).map Prod.fst = m.parameters :=
  List.map_fst_zip (by omega)

/-- The argument for a parameter is the one in its place. -/
lemma argument?_of_mem (hnodup : m.parameters.Nodup)
    (hlength : arguments.length = m.parameters.length) {p a : Text}
    (h : (p, a) ∈ m.parameters.zip arguments) : m.argument? arguments p = some a := by
  rw [argument?]
  apply lookup_of_mem
  · rw [List.map_reverse, map_fst_zip_arguments hlength, List.nodup_reverse]
    exact hnodup
  · exact List.mem_reverse.mpr h

lemma exists_argument (hlength : arguments.length = m.parameters.length) {p : Text}
    (h : p ∈ m.parameters) : ∃ a, (p, a) ∈ m.parameters.zip arguments := by
  rw [← map_fst_zip_arguments hlength] at h
  obtain ⟨⟨p, a⟩, hmem, rfl⟩ := List.mem_map.mp h
  exact ⟨a, hmem⟩

end

/-! ### One scan -/

namespace Substituted

variable {pairs pairs' : List (Text × Text)} {t u u' : Text}

/-- The order of the parameters does not matter. -/
lemma of_mem_iff (hpairs : ∀ p, p ∈ pairs ↔ p ∈ pairs') (h : Substituted pairs t u) :
    Substituted pairs' t u := by
  induction h with
  | nil => exact .nil
  | use hpair hused hlongest _ ih =>
    exact .use ((hpairs _).mp hpair) hused (fun p hp => hlongest p ((hpairs p).mpr hp)) ih
  | copy hnone _ ih => exact .copy (fun p hp => hnone p ((hpairs p).mpr hp)) ih

/-- There is one outcome. -/
lemma unique (hne : ∀ p ∈ pairs, p.1 ≠ []) (hnodup : (pairs.map Prod.fst).Nodup)
    (h : Substituted pairs t u) (h' : Substituted pairs t u') : u = u' := by
  induction h generalizing u' with
  | nil =>
    generalize ht : ([] : Text) = t at h'
    cases h' with
    | nil => rfl
    | use hpair =>
      obtain ⟨hnil, -⟩ := List.append_eq_nil_iff.mp ht.symm
      exact absurd hnil (hne _ hpair)
    | copy => cases ht
  | @use p a t u hpair hused hlongest _ ih =>
    generalize ht : p ++ t = t' at h'
    cases h' with
    | nil =>
      obtain ⟨hnil, -⟩ := List.append_eq_nil_iff.mp ht
      exact absurd hnil (hne _ hpair)
    | @use p' a' t' u' hpair' hused' hlongest' hrest' =>
      -- both parameters are the longest one here, and so they are the same
      have hle := hlongest _ hpair' (ht ▸ hused')
      have hle' := hlongest' _ hpair (ht ▸ hused)
      obtain rfl := hused.eq_of_length_eq (ht ▸ hused') (Nat.le_antisymm hle' hle)
      obtain rfl := List.append_cancel_left ht
      have hlookup := lookup_of_mem hnodup hpair
      obtain rfl := Option.some.inj (hlookup.symm.trans (lookup_of_mem hnodup hpair'))
      rw [ih hrest']
    | copy hnone => exact absurd (ht ▸ hused) (hnone _ hpair)
  | @copy c t u hnone _ ih =>
    generalize ht : c :: t = t' at h'
    cases h' with
    | nil => cases ht
    | use hpair hused => exact absurd (ht ▸ hused) (hnone _ hpair)
    | copy _ hrest =>
      cases ht
      rw [ih hrest]

end Substituted

/-- What the parts of a body come to, with arguments for the parameters. -/
lemma substituted_partsFrom {pairs : List (Text × Text)} {ps : List Text} {f : Part → Text}
    (hps : pairs.map Prod.fst = ps) (hne : [] ∉ ps) (hchar : ∀ c, f (.char c) = [c])
    (huse : ∀ p ∈ ps, (p, f (.use p)) ∈ pairs) (skip : Nat) (t : Text) :
    Substituted pairs (t.drop skip) ((partsFrom ps skip t).flatMap f) := by
  have hnonempty {t : Text} : parameterAt? ps t ≠ some [] := fun h => hne (of_parameterAt? h).1
  have hmem {q : Text × Text} (hq : q ∈ pairs) : q.1 ∈ ps := hps ▸ List.mem_map_of_mem hq
  fun_induction partsFrom ps skip t with
  | case1 skip c r ih => exact ih  -- a character of a parameter in use is passed over
  | case2 skip q hq =>
    obtain ⟨-, ⟨rest, hrest, -⟩, -⟩ := of_parameterAt? hq
    obtain ⟨rfl, -⟩ := List.append_eq_nil_iff.mp hrest.symm
    exact absurd hq hnonempty
  | case3 skip hq =>
    rw [List.drop_nil]
    exact .nil
  | case4 c r hq ih => exact absurd hq hnonempty  -- no parameter is empty
  | case5 c r d q hq ih =>
    obtain ⟨hparameter, hused, hlongest⟩ := of_parameterAt? hq
    obtain ⟨rest, hrest, hend⟩ := hused
    obtain ⟨rfl, rfl⟩ := List.cons.inj (hrest.trans List.cons_append)
    rw [List.drop_left] at ih
    rw [List.drop_zero, hrest, List.flatMap_cons]
    exact .use (huse _ hparameter) ⟨rest, rfl, hend⟩
      (fun p hp hp' => hlongest p.1 (hmem hp) (hrest ▸ hp')) ih
  | case6 c r hq ih =>
    rw [List.drop_zero, List.flatMap_cons, hchar, List.singleton_append]
    exact .copy (fun p hp => not_usedAt_of_parameterAt? hq p.1 (hmem hp)) ih

section

variable {m : Macro} {arguments : List Text}

lemma substituted_instantiate (hne : [] ∉ m.parameters) (hnodup : m.parameters.Nodup)
    (hlength : arguments.length = m.parameters.length) :
    Substituted (m.parameters.zip arguments) m.body (m.instantiate arguments) := by
  refine substituted_partsFrom (map_fst_zip_arguments hlength) hne (fun c => rfl) ?_ 0 m.body
  intro p hp
  obtain ⟨a, ha⟩ := exists_argument hlength hp
  dsimp only
  rwa [argument?_of_mem hnodup hlength ha]

/-- Each parameter in use has its argument. -/
lemma missing?_eq_none (hnodup : m.parameters.Nodup)
    (hlength : arguments.length = m.parameters.length) : m.missing? arguments = none := by
  rw [missing?, List.findSome?_eq_none_iff]
  intro part hpart
  cases part with
  | char c => rfl
  | use p =>
    obtain ⟨a, ha⟩ := exists_argument hlength (mem_parameters_of_mem_partsFrom hpart)
    simp [argument?_of_mem hnodup hlength ha]

/-- A macro with different parameters that are not empty is instantiated with as many arguments by
one scan of its body, in which arguments take the place of the parameters that are used, the longest
first. The order of the parameters with their arguments does not matter. -/
theorem instantiate_substitutes (hne : [] ∉ m.parameters) (hnodup : m.parameters.Nodup)
    (hlength : arguments.length = m.parameters.length) :
    m.missing? arguments = none ∧
    (∀ out, Substituted (m.parameters.zip arguments) m.body out ↔ m.instantiate arguments = out) ∧
    ∀ (m' : Macro) (arguments' : List Text), m'.body = m.body →
      arguments'.length = m'.parameters.length →
      (m'.parameters.zip arguments').Perm (m.parameters.zip arguments) →
      m'.instantiate arguments' = m.instantiate arguments := by
  have hfst := map_fst_zip_arguments hlength
  have hsubstituted := substituted_instantiate hne hnodup hlength
  have hunique {out : Text} (h : Substituted (m.parameters.zip arguments) m.body out) :
      m.instantiate arguments = out := by
    refine hsubstituted.unique (fun p hp hnil => ?_) (hfst.symm ▸ hnodup) h
    have hmem : p.1 ∈ m.parameters := hfst ▸ List.mem_map_of_mem hp
    exact hne (hnil ▸ hmem)
  refine ⟨missing?_eq_none hnodup hlength, fun out => ⟨hunique, fun h => h ▸ hsubstituted⟩, ?_⟩
  intro m' arguments' hbody hlength' hperm
  have hparameters : m'.parameters.Perm m.parameters := by
    have := hperm.map Prod.fst
    rwa [hfst, map_fst_zip_arguments hlength'] at this
  have hsubstituted' := substituted_instantiate (fun h => hne (hparameters.mem_iff.mp h))
    (hparameters.nodup_iff.mpr hnodup) hlength'
  rw [hbody] at hsubstituted'
  exact (hunique (hsubstituted'.of_mem_iff fun p => hperm.mem_iff)).symm

/-- A macro whose parameters begin with each other, and stand in its body with more behind them. -/
def overlapping : Macro :=
  ⟨['m'], ["%a".toList, "%ab".toList, "%a.".toList], "%a%ab %abc %a.b %a. %aé".toList, 1⟩

/-- The arguments of the call spell parameters. -/
theorem instantiate_substitutes_overlapping :
    [] ∉ overlapping.parameters ∧ overlapping.parameters.Nodup ∧
    Substituted (overlapping.parameters.zip ["%ab".toList, "%a".toList, ['b']])
      overlapping.body "%ab%a %abc %ab.b b %aé".toList ∧
    overlapping.instantiate ["%ab".toList, "%a".toList, ['b']] =
      "%ab%a %abc %ab.b b %aé".toList ∧
    { overlapping with parameters := ["%ab".toList, "%a.".toList, "%a".toList] }.instantiate
        ["%a".toList, ['b'], "%ab".toList] = "%ab%a %abc %ab.b b %aé".toList := by
  have hne : [] ∉ overlapping.parameters := by decide
  have hnodup : overlapping.parameters.Nodup := by decide
  have hlength : ["%ab".toList, "%a".toList, ['b']].length = overlapping.parameters.length := rfl
  have hout : overlapping.instantiate ["%ab".toList, "%a".toList, ['b']] =
      "%ab%a %abc %ab.b b %aé".toList := by
    decide +kernel
  obtain ⟨-, hiff, horder⟩ := instantiate_substitutes hne hnodup hlength
  refine ⟨hne, hnodup, (hiff _).mpr hout, hout, ?_⟩
  rw [← hout]
  exact horder _ _ rfl rfl (by decide)

end

end MipsAsm.Macro
