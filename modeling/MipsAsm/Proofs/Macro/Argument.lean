import MipsAsm.Macro.Argument
import MipsAsm.Proofs.Scan.Context
import MipsAsm.Proofs.Text.Trim

/-!
# Lists of arguments

Well formed arguments (`Macro.WellFormed`) that stand one behind the other, with commas or blanks
between them, are what `splitArguments` finds again: nothing in a literal or between parentheses
separates arguments, and after each of them code goes on outside parentheses.
-/

namespace MipsAsm.Macro

open Scan (State)

/-! ### Outside parentheses -/

/-- The depth of parentheses in code behind a text that is read from a state and at a depth. -/
def depthFrom : State → (depth : Int) → Text → Int
  | _, depth, []     => depth
  | s, depth, c :: r =>
    if s.contextOf c = .code then depthFrom (s.next c) (depthAfter depth c) r
    else depthFrom (s.next c) depth r

/-- The parentheses in the code of a text that are opened and not closed. -/
def depth (t : Text) : Int := depthFrom .code 0 t

/-- The characters of a text, read from a state and at a depth, that stand in code and outside
parentheses. -/
def exposedFrom : State → (depth : Int) → Text → Text
  | _, _,     []     => []
  | s, depth, c :: r =>
    if s.contextOf c = .code then
      if depth = 0 then c :: exposedFrom (s.next c) (depthAfter depth c) r
      else exposedFrom (s.next c) (depthAfter depth c) r
    else exposedFrom (s.next c) depth r

/-- The characters of a text that stand in code and outside parentheses. -/
def exposed (t : Text) : Text := exposedFrom .code 0 t

/-- An argument that commas can stand around. -/
structure WellFormed (a : Text) : Prop where
  /-- There is no blank at its ends. -/
  trimmed     : a.trim = a
  /-- It ends in code. -/
  ends        : State.code.after a = .code
  /-- No line of it ends in a literal: each literal ends with its own quote. -/
  closed      : ∀ n < a.length, a[n]? = some '\n' → State.code.after (a.take n) = .code
  /-- It has no comment. -/
  uncommented : .comment ∉ Scan.contexts a
  /-- Each parenthesis is closed. -/
  balanced    : depth a = 0
  /-- No parenthesis is closed before it is opened. -/
  opened      : ∀ n ≤ a.length, 0 ≤ depth (a.take n)
  /-- A comma stands in a literal or between parentheses. -/
  commaFree   : ',' ∉ exposed a

instance (a : Text) : Decidable (WellFormed a) :=
  decidable_of_iff (a.trim = a ∧ State.code.after a = .code ∧
      (∀ n < a.length, a[n]? = some '\n' → State.code.after (a.take n) = .code) ∧
      .comment ∉ Scan.contexts a ∧ depth a = 0 ∧ (∀ n ≤ a.length, 0 ≤ depth (a.take n)) ∧
      ',' ∉ exposed a)
    ⟨fun ⟨h₁, h₂, h₃, h₄, h₅, h₆, h₇⟩ => ⟨h₁, h₂, h₃, h₄, h₅, h₆, h₇⟩,
      fun ⟨h₁, h₂, h₃, h₄, h₅, h₆, h₇⟩ => ⟨h₁, h₂, h₃, h₄, h₅, h₆, h₇⟩⟩

/-- An argument that blanks can stand around. -/
structure Compact (a : Text) : Prop extends WellFormed a where
  ne_nil   : a ≠ []
  /-- A blank stands in a literal or between parentheses. -/
  unbroken : ∀ c ∈ exposed a, ¬ isBlank c

instance (a : Text) : Decidable (Compact a) :=
  decidable_of_iff (WellFormed a ∧ a ≠ [] ∧ (exposed a).all fun c => ¬ isBlank c)
    ⟨fun ⟨h₁, h₂, h₃⟩ => ⟨h₁, h₂, fun c hc => of_decide_eq_true (List.all_eq_true.mp h₃ c hc)⟩,
      fun ⟨h₁, h₂, h₃⟩ => ⟨h₁, h₂, List.all_eq_true.mpr fun c hc => decide_eq_true (h₃ c hc)⟩⟩

/-! ### Texts behind one another -/

section

variable {t u : Text}

lemma depthFrom_append (s : State) (d : Int) (t u : Text) :
    depthFrom s d (t ++ u) = depthFrom (s.after t) (depthFrom s d t) u := by
  induction t generalizing s d with
  | nil => rfl
  | cons c t ih =>
    rw [List.cons_append, depthFrom, depthFrom, State.after_cons]
    split <;> exact ih _ _

lemma exposedFrom_append (s : State) (d : Int) (t u : Text) :
    exposedFrom s d (t ++ u) =
      exposedFrom s d t ++ exposedFrom (s.after t) (depthFrom s d t) u := by
  induction t generalizing s d with
  | nil => rfl
  | cons c t ih =>
    rw [List.cons_append, exposedFrom, exposedFrom, depthFrom, State.after_cons]
    split
    · split <;> simp [ih]
    · exact ih _ _

lemma exposedFrom_subset (s : State) (d : Int) (t : Text) : exposedFrom s d t ⊆ t := by
  induction t generalizing s d with
  | nil => exact List.Subset.refl []
  | cons c t ih =>
    rw [exposedFrom]
    split
    · split
      · exact List.cons_subset_cons c (ih _ _)
      · exact List.subset_cons_of_subset c (ih _ _)
    · exact List.subset_cons_of_subset c (ih _ _)

/-- A text that does not reach beyond its end: code goes on after it, outside parentheses. -/
structure Enclosed (t : Text) : Prop extends Scan.Complete t where
  balanced : depth t = 0

lemma WellFormed.enclosed {a : Text} (h : WellFormed a) : Enclosed a :=
  ⟨⟨h.ends, h.uncommented⟩, h.balanced⟩

lemma enclosed_nil : Enclosed [] := ⟨Scan.complete_nil, rfl⟩

lemma enclosed_cons {c : Char} (hc : Scan.IsPlain c) (hopen : c ≠ '(') (hclose : c ≠ ')')
    (ht : Enclosed t) : Enclosed (c :: t) where
  toComplete := Scan.complete_cons hc ht.toComplete
  balanced := by
    rw [depth, depthFrom, if_pos hc.contextOf, hc.next, depthAfter, if_neg hopen, if_neg hclose]
    exact ht.balanced

lemma Enclosed.append (ht : Enclosed t) (hu : Enclosed u) : Enclosed (t ++ u) where
  toComplete := ht.toComplete.append hu.toComplete
  balanced := by
    have hdepth : depthFrom .code 0 t = 0 := ht.balanced
    rw [depth, depthFrom_append, ht.ends, hdepth]
    exact hu.balanced

lemma Enclosed.exposed_append (ht : Enclosed t) (u : Text) :
    exposed (t ++ u) = exposed t ++ exposed u := by
  have hdepth : depthFrom .code 0 t = 0 := ht.balanced
  rw [exposed, exposedFrom_append, ht.ends, hdepth]
  rfl

/-- Texts one behind the other have what they have. -/
lemma enclosed_joined {p : Char → Prop} {sep : Text} {as : List Text} (hsep : Enclosed sep)
    (hp : ∀ c ∈ exposed sep, p c) (h : ∀ a ∈ as, Enclosed a ∧ ∀ c ∈ exposed a, p c) :
    Enclosed (Text.joined sep as) ∧ ∀ c ∈ exposed (Text.joined sep as), p c := by
  induction as with
  | nil => exact ⟨enclosed_nil, nofun⟩
  | cons a as ih =>
    rw [List.forall_mem_cons] at h
    obtain ⟨⟨ha, hpa⟩, has⟩ := h
    cases as with
    | nil => exact ⟨ha, hpa⟩
    | cons b as =>
      obtain ⟨hrest, hprest⟩ := ih has
      refine ⟨(ha.append hsep).append hrest, ?_⟩
      rw [Text.joined, (ha.append hsep).exposed_append, ha.exposed_append, List.forall_mem_append,
        List.forall_mem_append]
      exact ⟨⟨hpa, hp⟩, hprest⟩

end

/-! ### Cuts -/

section

variable {separates : Char → Bool} {s : State} {d : Int} {a b t : Text} {as : List Text}

/-- No cut is made in a text whose separators are all in literals and parentheses. -/
lemma cutFrom_append (hfree : ∀ c ∈ exposedFrom s d a, ¬ separates c) {l : Text} {ls : List Text}
    (ht : cutFrom separates (s.after a) (depthFrom s d a) t = l :: ls) :
    cutFrom separates s d (a ++ t) = (a ++ l) :: ls := by
  induction a generalizing s d with
  | nil => exact ht
  | cons c a ih =>
    rw [List.cons_append, cutFrom]
    rw [exposedFrom] at hfree
    rw [State.after_cons, depthFrom] at ht
    split
    · next hcode =>
      rw [if_pos hcode] at hfree ht
      -- at depth 0 a separator would be exposed
      have hkept : ¬ (d = 0 ∧ separates c) := by
        rintro ⟨rfl, hc⟩
        exact hfree c List.mem_cons_self hc
      have hrest : ∀ x ∈ exposedFrom (s.next c) (depthAfter d c) a, ¬ separates x := by
        intro x hx
        split at hfree
        · exact hfree x (List.mem_cons_of_mem _ hx)
        · exact hfree x hx
      rw [if_neg hkept, ih hrest ht]
      rfl
    · next hcode =>
      rw [if_neg hcode] at hfree ht
      rw [ih hfree ht]
      rfl

lemma cut_eq_singleton (hfree : ∀ c ∈ exposed a, ¬ separates c) : cut separates a = [a] := by
  have h := cutFrom_append (t := []) hfree rfl
  rwa [List.append_nil] at h

/-- A cut is made at a separator behind a text that does not reach beyond its end. -/
lemma Enclosed.cut_append (ha : Enclosed a) (hfree : ∀ c ∈ exposed a, ¬ separates c) {c : Char}
    (hc : Scan.IsPlain c) (hsep : separates c) (t : Text) :
    cut separates (a ++ c :: t) = a :: cut separates t := by
  have hdepth : depthFrom .code 0 a = 0 := ha.balanced
  have hcut : cutFrom separates .code 0 (c :: t) = [] :: cut separates t := by
    rw [cutFrom, if_pos hc.contextOf, if_pos ⟨rfl, hsep⟩, hc.next]
    rfl
  have h := cutFrom_append (s := .code) (d := 0) hfree (by rw [ha.ends, hdepth, hcut])
  rwa [List.append_nil] at h

/-- Texts with a separator between them are found again. -/
lemma cut_joined {c : Char} (hc : Scan.IsPlain c) (hsep : separates c) (hne : as ≠ [])
    (h : ∀ a ∈ as, Enclosed a ∧ ∀ c ∈ exposed a, ¬ separates c) :
    cut separates (Text.joined [c] as) = as := by
  induction as with
  | nil => exact absurd rfl hne
  | cons a as ih =>
    rw [List.forall_mem_cons] at h
    obtain ⟨⟨ha, hfree⟩, has⟩ := h
    cases as with
    | nil => exact cut_eq_singleton hfree
    | cons b as =>
      rw [Text.joined, List.append_assoc, List.singleton_append, ha.cut_append hfree hc hsep,
        ih (List.cons_ne_nil _ _) has]

lemma cutFrom_ne_nil (s : State) (d : Int) (t : Text) : cutFrom separates s d t ≠ [] := by
  have hcons (c : Char) (ls : List Text) : Text.consFirst c ls ≠ [] := by
    cases ls <;> simp [Text.consFirst]
  cases t with
  | nil => exact List.cons_ne_nil _ _
  | cons c t =>
    rw [cutFrom]
    split
    · split
      · exact List.cons_ne_nil _ _
      · exact hcons c _
    · exact hcons c _

/-- What is at the end of a text and has no separator is at the end of its last part. -/
lemma exists_cutFrom_append (hb : ∀ c ∈ b, ¬ separates c) (s : State) (d : Int) (t : Text) :
    ∃ ls l, cutFrom separates s d t = ls ++ [l] ∧
      cutFrom separates s d (t ++ b) = ls ++ [l ++ b] := by
  induction t generalizing s d with
  | nil =>
    refine ⟨[], [], rfl, ?_⟩
    -- all of `b` is one part, as it has no separator at all
    have h := cutFrom_append (t := []) (fun c hc => hb c (exposedFrom_subset s d b hc)) rfl
    rwa [List.append_nil] at h
  | cons c t ih =>
    have hcons {s : State} {d : Int} : ∃ ls l,
        Text.consFirst c (cutFrom separates s d t) = ls ++ [l] ∧
          Text.consFirst c (cutFrom separates s d (t ++ b)) = ls ++ [l ++ b] := by
      obtain ⟨ls, l, ht, htb⟩ := ih s d
      rw [ht, htb]
      cases ls with
      | nil => exact ⟨[], c :: l, rfl, rfl⟩
      | cons l' ls => exact ⟨(c :: l') :: ls, l, rfl, rfl⟩
    rw [List.cons_append, cutFrom, cutFrom]
    split
    · split
      · -- a cut is made at `c`, and the last part is later
        obtain ⟨ls, l, ht, htb⟩ := ih (s.next c) d
        exact ⟨[] :: ls, l, by rw [ht]; rfl, by rw [htb]; rfl⟩
      · exact hcons
    · exact hcons

/-! ### Blanks at the ends -/

lemma enclosed_blanks (hb : ∀ c ∈ b, isBlank c) : Enclosed b := by
  induction b with
  | nil => exact enclosed_nil
  | cons c b ih =>
    rw [List.forall_mem_cons] at hb
    have hne {x : Char} (hx : ¬ isBlank x) : c ≠ x := by
      rintro rfl
      exact hx hb.1
    exact enclosed_cons (Scan.isPlain_of_isBlank hb.1) (hne (by decide)) (hne (by decide)) (ih hb.2)

/-- Where no blank separates, blanks at the ends of a text are at the ends of its parts. -/
lemma map_trim_cut_trim (hsep : ∀ c, isBlank c → ¬ separates c) (t : Text) :
    (cut separates t.trim).map Text.trim = (cut separates t).map Text.trim := by
  -- the blanks in front belong to the first part, and those at the end to the last
  have hleft (u : Text) : (cut separates u.trimLeft).map Text.trim =
      (cut separates u).map Text.trim := by
    have hblank : ∀ c ∈ u.takeWhile isBlank, isBlank c := fun c => List.mem_takeWhile_imp
    have hfree : ∀ c ∈ exposed (u.takeWhile isBlank), ¬ separates c :=
      fun c hc => hsep c (hblank c (exposedFrom_subset _ _ _ hc))
    have hdepth : depthFrom .code 0 (u.takeWhile isBlank) = 0 := (enclosed_blanks hblank).balanced
    obtain ⟨l, ls, hl⟩ := List.exists_cons_of_ne_nil
      (@cutFrom_ne_nil separates .code 0 u.trimLeft)
    have happend : cutFrom separates .code 0 (u.takeWhile isBlank ++ u.trimLeft) =
        (u.takeWhile isBlank ++ l) :: ls :=
      cutFrom_append hfree (by rw [(enclosed_blanks hblank).ends, hdepth, hl])
    have hu : u.takeWhile isBlank ++ u.trimLeft = u := List.takeWhile_append_dropWhile
    rw [hu] at happend
    rw [cut, cut, hl, happend, List.map_cons, List.map_cons, Text.trim_blanks_append hblank]
  have hright (u : Text) : (cut separates u.trimRight).map Text.trim =
      (cut separates u).map Text.trim := by
    obtain ⟨b, hb, hblank⟩ := Text.exists_trimRight_append u
    obtain ⟨ls, l, hcut, happend⟩ :=
      exists_cutFrom_append (fun c hc => hsep c (hblank c hc)) .code 0 u.trimRight
    rw [← hb] at happend
    rw [cut, cut, hcut, happend, List.map_append, List.map_append]
    simp [Text.trim_append hblank]
  rw [Text.trim, hright, hleft]

end

/-! ### Lists -/

section

variable {as : List Text}

/-- Commas with a blank behind them are commas, with a blank in front of the next part. -/
lemma joined_comma_blank (a : Text) (as : List Text) :
    Text.joined [',', ' '] (a :: as) = Text.joined [','] (a :: as.map (' ' :: ·)) := by
  induction as generalizing a with
  | nil => rfl
  | cons b as ih =>
    rw [Text.joined, ih, List.map_cons, Text.joined]
    cases as <;> simp [Text.joined]

lemma WellFormed.not_comma {a : Text} (h : WellFormed a) :
    ∀ c ∈ exposed a, ¬ decide (c = ',') = true := by
  rintro c hc hcomma
  rw [of_decide_eq_true hcomma] at hc
  exact h.commaFree hc

lemma WellFormed.trim_cons {a : Text} (h : WellFormed a) : Text.trim (' ' :: a) = a := by
  rw [← List.singleton_append, Text.trim_blanks_append Text.isBlank_of_mem_space, h.trimmed]

/-- Well formed arguments with commas between them are found again, but for blanks around them. -/
lemma map_trim_cut_joined (hne : as ≠ []) (h : ∀ a ∈ as, WellFormed a) :
    (cut (· = ',') (Text.joined [',', ' '] as)).map Text.trim = as := by
  obtain ⟨a, as, rfl⟩ := List.exists_cons_of_ne_nil hne
  rw [List.forall_mem_cons] at h
  have hparts : ∀ b ∈ a :: as.map (' ' :: ·), Enclosed b ∧ ∀ c ∈ exposed b, ¬ decide (c = ',') := by
    rw [List.forall_mem_cons, List.forall_mem_map]
    refine ⟨⟨h.1.enclosed, h.1.not_comma⟩, fun b hb => ?_⟩
    have hblank : Enclosed [' '] := enclosed_blanks Text.isBlank_of_mem_space
    refine ⟨hblank.append (h.2 b hb).enclosed, fun c hc => ?_⟩
    rw [← List.singleton_append, hblank.exposed_append] at hc
    rcases List.mem_append.mp hc with hc | hc
    · rw [List.mem_singleton.mp hc]
      decide
    · exact (h.2 b hb).not_comma c hc
  rw [joined_comma_blank, cut_joined (by decide) (by decide) (List.cons_ne_nil _ _) hparts,
    List.map_cons, h.1.trimmed, List.map_map]
  have htrim : as.map (Text.trim ∘ (' ' :: ·)) = as.map id :=
    List.map_congr_left fun b hb => (h.2 b hb).trim_cons
  rw [htrim, List.map_id]

/-- Well formed arguments with commas between them are found again. -/
lemma splitArguments_joined_comma (hlength : 2 ≤ as.length) (h : ∀ a ∈ as, WellFormed a) :
    splitArguments (Text.joined [',', ' '] as) = as := by
  have hne : as ≠ [] := by
    rintro rfl
    cases hlength
  have hsep (c : Char) (hc : isBlank c) : ¬ decide (c = ',') := by
    intro hcomma
    rw [of_decide_eq_true hcomma] at hc
    exact absurd hc (by decide)
  rw [splitArguments, map_trim_cut_trim hsep, map_trim_cut_joined hne h]
  exact if_pos hlength

/-- Compact arguments with blanks between them are found again. -/
lemma splitArguments_joined_blank (h : ∀ a ∈ as, Compact a) :
    splitArguments (Text.joined [' '] as) = as := by
  have hblank : Enclosed [' '] := enclosed_blanks Text.isBlank_of_mem_space
  have htrim : (Text.joined [' '] as).trim = Text.joined [' '] as :=
    Text.trim_joined fun a ha => ⟨(h a ha).ne_nil, (h a ha).trimmed⟩
  have hexposed : ∀ c ∈ exposed [' '], ¬ decide (c = ',') :=
    List.forall_mem_singleton.mpr (by decide)
  -- there is no comma to cut at, so the text is cut at blanks
  have hcomma := (enclosed_joined (p := fun c => ¬ decide (c = ',')) hblank hexposed
    fun a ha => ⟨(h a ha).enclosed, (h a ha).not_comma⟩).2
  rw [splitArguments, htrim, cut_eq_singleton hcomma]
  cases as with
  | nil => rfl
  | cons a as =>
    have hcut : cut isBlank (Text.joined [' '] (a :: as)) = a :: as :=
      cut_joined (by decide) (by decide) (List.cons_ne_nil a as)
        fun b hb => ⟨(h b hb).enclosed, (h b hb).unbroken⟩
    have hmap : (a :: as).map Text.trim = a :: as :=
      (List.map_congr_left fun b hb => (h b hb).trimmed).trans (List.map_id _)
    rw [hcut, hmap]
    exact List.filter_eq_self.mpr fun b hb => decide_eq_true (h b hb).ne_nil

end

end MipsAsm.Macro
