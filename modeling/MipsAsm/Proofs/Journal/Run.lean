import MipsAsm.Journal.Run
import MipsAsm.Proofs.Result

/-!
# Successful, failing and equal runs

A computation in steps succeeds exactly if each step does, from the state that the steps before it
leave, and fails with the first step that does. It reports what its steps do. `Run.Follows` compares
two computations: where the first succeeds, so does the second. It is kept by all that computations
are made of, so that it is shown of a program by its structure.
-/

namespace MipsAsm.Run

variable {σ ε α β : Type} {x : Run σ ε α} {f : α → Run σ ε β} {s s' : σ} {a : α} {b : β}

lemma result_bind_of_ok (h : (x.run s).result = .ok a) :
    ((x >>= f).run s).result = ((f a).run (x.run s).state).result := by
  rw [result_bind, h]

/-- A computation goes on after a step that succeeds. -/
lemma run_bind_of_ok {events : List Event} (h : x.run s = ⟨.ok a, s', events⟩) :
    (x >>= f).run s = ⟨((f a).run s').result, ((f a).run s').state,
      events ++ ((f a).run s').events⟩ := by
  have h : x s = ⟨.ok a, s', events⟩ := h
  show Run.bind x f s = _
  unfold Run.bind
  rw [h]
  rfl

/-- A computation ends with a step that fails. -/
lemma run_bind_of_error {e : ε} {events : List Event} (h : x.run s = ⟨.error e, s', events⟩) :
    (x >>= f).run s = ⟨.error e, s', events⟩ := by
  have h : x s = ⟨.error e, s', events⟩ := h
  show Run.bind x f s = _
  unfold Run.bind
  rw [h]

/-- A computation on no state of its own may be cut into its steps. -/
lemma embed_bind {σ' : Type} (x : Run Unit ε α) (f : α → Run Unit ε β) :
    (embed (x >>= f) () : Run σ' ε β) = embed x () >>= fun a => embed (f a) () := by
  funext s
  show (let o := Run.bind x f (); (⟨o.result, s, o.events⟩ : Outcome _ _ _)) =
    Run.bind (embed x ()) _ s
  unfold Run.bind embed
  dsimp only
  rcases x () with ⟨_ | a, _, events⟩ <;> rfl

/-! ### Results and the states left behind -/

/-- The computation succeeds from a state, with a result, and leaves another state behind. -/
def Yields (x : Run σ ε α) (s : σ) (a : α) (s' : σ) : Prop :=
  (x.run s).result = .ok a ∧ (x.run s).state = s'

lemma yields_of_ok (h : (x.run s).result = .ok a) : Yields x s a (x.run s).state := ⟨h, rfl⟩

@[simp] lemma yields_pure {c : β} : Yields (pure b : Run σ ε β) s c s' ↔ b = c ∧ s = s' := by
  simp [Yields]

@[simp] lemma yields_throw {e : ε} : ¬ Yields (Run.throw e : Run σ ε α) s a s' := by
  simp [Yields]

@[simp] lemma yields_ofExcept {r : Except ε α} :
    Yields (ofExcept r) s a s' ↔ r = .ok a ∧ s = s' := by
  simp [Yields]

@[simp] lemma yields_get {s₁ : σ} : Yields (Run.get : Run σ ε σ) s s₁ s' ↔ s = s₁ ∧ s = s' := by
  simp [Yields]

@[simp] lemma yields_modify {g : σ → σ} {u : Unit} :
    Yields (modify g : Run σ ε Unit) s u s' ↔ g s = s' := by
  simp [Yields]

@[simp] lemma yields_log {e : Event} {u : Unit} :
    Yields (log e : Run σ ε Unit) s u s' ↔ s = s' := by
  simp [Yields]

@[simp] lemma yields_mapError {ε' : Type} {g : ε → ε'} :
    Yields (x.mapError g) s a s' ↔ Yields x s a s' := by
  rw [Yields, Yields, result_mapError, state_mapError, mapError_eq_ok]

@[simp] lemma yields_focus {ρ : Type} {part : σ → ρ} {put : ρ → σ → σ} {z : Run ρ ε α} :
    Yields (focus part put z) s a s' ↔ ∃ r, Yields z (part s) a r ∧ put r s = s' := by
  simp [Yields, and_assoc]

@[simp] lemma yields_bind :
    Yields (x >>= f) s b s' ↔ ∃ a s₁, Yields x s a s₁ ∧ Yields (f a) s₁ b s' := by
  rw [Yields, result_bind, state_bind]
  cases h : (x.run s).result with
  | error e => simp [Yields, h]
  | ok a => simp [Yields, h]

lemma yields_congr {y : Run σ ε α} (h : x.run s = y.run s) : Yields x s a s' ↔ Yields y s a s' := by
  rw [Yields, Yields, h]

/-! ### Failures -/

/-- The computation fails from a state, with an error of a kind. -/
def Fails (x : Run σ ε α) (s : σ) (p : ε → Prop) : Prop := ∃ e, (x.run s).result = .error e ∧ p e

section

variable {ε' : Type} {p : ε → Prop} {q : ε' → Prop}

lemma Fails.not_yields (h : Fails x s p) : ¬ Yields x s a s' := by
  obtain ⟨e, he, -⟩ := h
  rintro ⟨hok, -⟩
  cases he.symm.trans hok

/-- A computation that does not fail succeeds. -/
lemma yields_of_not_fails (h : ¬ Fails x s fun _ => True) : ∃ a s', Yields x s a s' := by
  cases hx : (x.run s).result with
  | error e => exact absurd ⟨e, hx, trivial⟩ h
  | ok a => exact ⟨a, _, yields_of_ok hx⟩

lemma fails_congr {y : Run σ ε α} (h : x.run s = y.run s) : Fails x s p ↔ Fails y s p := by
  rw [Fails, Fails, h]

lemma result_eq_error {e : ε} : (x.run s).result = .error e ↔ Fails x s (· = e) := by
  simp [Fails]

@[simp] lemma not_fails_pure : ¬ Fails (pure a : Run σ ε α) s p := by
  simp [Fails]

@[simp] lemma fails_throw {e : ε} : Fails (Run.throw e : Run σ ε α) s p ↔ p e := by
  simp [Fails]

@[simp] lemma fails_ofExcept {r : Except ε α} :
    Fails (ofExcept r) s p ↔ ∃ e, r = .error e ∧ p e := Iff.rfl

@[simp] lemma not_fails_modify {g : σ → σ} : ¬ Fails (modify g : Run σ ε Unit) s p := by
  simp [Fails]

@[simp] lemma not_fails_log {e : Event} : ¬ Fails (log e : Run σ ε Unit) s p := by
  simp [Fails]

@[simp] lemma fails_mapError {g : ε → ε'} :
    Fails (x.mapError g) s q ↔ Fails x s fun e => q (g e) := by
  simp only [Fails, result_mapError, mapError_eq_error]
  constructor
  · rintro ⟨_, ⟨e, he, rfl⟩, hq⟩
    exact ⟨e, he, hq⟩
  · rintro ⟨e, he, hq⟩
    exact ⟨g e, ⟨e, he, rfl⟩, hq⟩

/-- A computation fails with its first step, or as what follows where that step succeeds. -/
lemma fails_bind :
    Fails (x >>= f) s p ↔ Fails x s p ∨ ∃ a s', Yields x s a s' ∧ Fails (f a) s' p := by
  simp only [Fails, result_bind, Yields]
  cases h : (x.run s).result with
  | error e => simp
  | ok a => simp

lemma Fails.bind (h : Fails x s p) : Fails (x >>= f) s p := fails_bind.mpr (.inl h)

/-- A computation fails as what follows a step that succeeds. -/
lemma Yields.fails_bind (hx : Yields x s a s') (h : Fails (f a) s' p) : Fails (x >>= f) s p :=
  Run.fails_bind.mpr (.inr ⟨a, s', hx, h⟩)

lemma fails_log_bind {e : Event} : Fails (log e >>= fun _ => x) s p ↔ Fails x s p := by
  rw [fails_bind]
  simp

/-- A computation whose last step does not fail fails with the steps in front. -/
lemma fails_bind_pure {g : α → β} : Fails (x >>= fun a => pure (g a)) s p ↔ Fails x s p := by
  rw [fails_bind]
  simp

end

/-! ### Reports -/

/-- What the events of a computation report, in order. -/
def reports {γ : Type} (g : Event → Option γ) (x : Run σ ε α) (s : σ) : List γ :=
  (x.run s).events.filterMap g

section

variable {γ : Type} {g : Event → Option γ}

@[simp] lemma reports_pure (a : α) : reports g (pure a : Run σ ε α) s = [] := rfl

@[simp] lemma reports_log (e : Event) : reports g (log e : Run σ ε Unit) s = (g e).toList := by
  show [e].filterMap g = _
  cases h : g e <;> simp [h]

@[simp] lemma reports_mapError {ε' : Type} (k : ε → ε') (x : Run σ ε α) :
    reports g (x.mapError k) s = reports g x s := rfl

lemma reports_congr {y : Run σ ε α} (h : x.run s = y.run s) : reports g x s = reports g y s := by
  rw [reports, reports, h]

/-- A computation in steps reports what its steps do. -/
lemma reports_bind (hx : Yields x s a s') :
    reports g (x >>= f) s = reports g x s ++ reports g (f a) s' := by
  have hrun : x.run s = ⟨.ok a, s', (x.run s).events⟩ := by rw [← hx.1, ← hx.2]
  rw [reports, run_bind_of_ok hrun, List.filterMap_append]
  rfl

lemma reports_log_bind (e : Event) :
    reports g (log e >>= fun _ => x) s = (g e).toList ++ reports g x s := by
  rw [reports_bind (yields_log.mpr rfl : Yields (log e) s () s), reports_log]

lemma reports_modify_bind (k : σ → σ) :
    reports g (modify k >>= fun _ => x) s = reports g x (k s) := by
  rw [reports_bind (yields_modify.mpr rfl : Yields (modify k) s () (k s))]
  rfl

/-- A computation reports what its first step does, if the others report nothing. -/
lemma reports_bind_of_silent (hf : ∀ a s', reports g (f a) s' = []) :
    reports g (x >>= f) s = reports g x s := by
  cases hresult : (x.run s).result with
  | error e =>
    have hrun : x.run s = ⟨.error e, (x.run s).state, (x.run s).events⟩ := by rw [← hresult]
    rw [reports, run_bind_of_error hrun]
    rfl
  | ok a => rw [reports_bind (yields_of_ok hresult), hf, List.append_nil]

end

/-! ### Equal runs -/

/-- Computations in steps run equally if their steps do. -/
lemma run_bind_congr {y : Run σ ε α} {g : α → Run σ ε β} (hx : x.run s = y.run s)
    (hf : ∀ a s', Yields x s a s' → (f a).run s' = (g a).run s') :
    (x >>= f).run s = (y >>= g).run s := by
  show Run.bind x f s = Run.bind y g s
  have hx : x s = y s := hx
  unfold Run.bind
  rw [← hx]
  rcases hr : x s with ⟨_ | a, s', events⟩
  · rfl
  · -- `f` and `g` need only agree where the first step leads
    have hyields : Yields x s a s' := by
      rw [Yields, run, hr]
      exact ⟨rfl, rfl⟩
    have hfg : f a s' = g a s' := hf a s' hyields
    dsimp only
    rw [hfg]

lemma run_mapError_congr {ε' : Type} {y : Run σ ε α} (h : x.run s = y.run s) (g : ε → ε') :
    (x.mapError g).run s = (y.mapError g).run s := by
  have hmap (z : Run σ ε α) : (z.mapError g).run s =
      ⟨(z.run s).result.mapError g, (z.run s).state, (z.run s).events⟩ := rfl
  rw [hmap, hmap, h]

lemma run_focus_congr {τ : Type} {part : τ → σ} {put : σ → τ → τ} {y : Run σ ε α} {t : τ}
    (h : x.run (part t) = y.run (part t)) :
    (focus part put x).run t = (focus part put y).run t := by
  have hfocus (z : Run σ ε α) : (focus part put z).run t =
      ⟨(z.run (part t)).result, put (z.run (part t)).state t, (z.run (part t)).events⟩ := rfl
  rw [hfocus, hfocus, h]

/-! ### Computations side by side -/

section

variable {τ ε' α' β' : Type} {S : σ → τ → Prop} {V : α → α' → Prop} {W : β → β' → Prop}
  {y : Run τ ε' α'} {g : α' → Run τ ε' β'}

/-- Where the first computation succeeds the second does, from related states, with related results,
and the states that they leave behind are related again. -/
def Follows (S : σ → τ → Prop) (V : α → α' → Prop) (x : Run σ ε α) (y : Run τ ε' α') : Prop :=
  ∀ ⦃s t a s'⦄, S s t → Yields x s a s' → ∃ a' t', Yields y t a' t' ∧ V a a' ∧ S s' t'

namespace Follows

lemma pure {a : α} {a' : α'} (h : V a a') :
    Follows S V (Pure.pure a : Run σ ε α) (Pure.pure a' : Run τ ε' α') := by
  intro s t b s' hS hx
  obtain ⟨rfl, rfl⟩ := yields_pure.mp hx
  exact ⟨a', t, by simp, h, hS⟩

lemma bind (hx : Follows S V x y) (hf : ∀ a a', V a a' → Follows S W (f a) (g a')) :
    Follows S W (x >>= f) (y >>= g) := by
  intro s t b s' hS hxf
  obtain ⟨a, s₁, hx₁, hf₁⟩ := yields_bind.mp hxf
  obtain ⟨a', t₁, hy, hV, hS₁⟩ := hx hS hx₁
  obtain ⟨b', t', hg, hW, hS'⟩ := hf a a' hV hS₁ hf₁
  exact ⟨b', t', yields_bind.mpr ⟨a', t₁, hy, hg⟩, hW, hS'⟩

/-- Computations go on with equal results. -/
lemma bind_eq {y : Run τ ε' α} {g : α → Run τ ε' β'} (hx : Follows S Eq x y)
    (hf : ∀ a, Follows S W (f a) (g a)) : Follows S W (x >>= f) (y >>= g) := by
  refine hx.bind ?_
  rintro a _ rfl
  exact hf a

lemma throw (e : ε) (y : Run τ ε' α') : Follows S V (Run.throw e : Run σ ε α) y := by
  intro s t a s' hS hx
  exact absurd hx yields_throw

lemma ofExcept {r : Except ε α} {r' : Except ε' α'}
    (h : ∀ a, r = .ok a → ∃ a', r' = .ok a' ∧ V a a') :
    Follows S V (Run.ofExcept r) (Run.ofExcept r') := by
  intro s t a s' hS hx
  obtain ⟨hr, rfl⟩ := yields_ofExcept.mp hx
  obtain ⟨a', hr', hV⟩ := h a hr
  exact ⟨a', t, by simp [hr'], hV, hS⟩

lemma get : Follows S S (Run.get : Run σ ε σ) (Run.get : Run τ ε' τ) := by
  intro s t s₁ s' hS hx
  obtain ⟨rfl, rfl⟩ := yields_get.mp hx
  exact ⟨t, t, by simp, hS, hS⟩

lemma modify {k : σ → σ} {k' : τ → τ} (h : ∀ s t, S s t → S (k s) (k' t)) :
    Follows S Eq (Run.modify k : Run σ ε Unit) (Run.modify k' : Run τ ε' Unit) := by
  intro s t u s' hS hx
  obtain rfl := yields_modify.mp hx
  exact ⟨u, k' t, by simp, rfl, h s t hS⟩

lemma log (e e' : Event) :
    Follows S Eq (Run.log e : Run σ ε Unit) (Run.log e' : Run τ ε' Unit) := by
  intro s t u s' hS hx
  obtain rfl := yields_log.mp hx
  exact ⟨u, t, by simp, rfl, hS⟩

/-- What is reported does not matter. -/
lemma log_bind {y : Run τ ε' α'} (h : Follows S V x y) (e e' : Event) :
    Follows S V (Run.log e >>= fun _ => x) (Run.log e' >>= fun _ => y) :=
  (Follows.log e e').bind_eq fun _ => h

lemma mapError {ε₁ ε₂ : Type} (h : Follows S V x y) (k : ε → ε₁) (k' : ε' → ε₂) :
    Follows S V (x.mapError k) (y.mapError k') := by
  intro s t a s' hS hx
  obtain ⟨a', t', hy, hV, hS'⟩ := h hS (yields_mapError.mp hx)
  exact ⟨a', t', yields_mapError.mpr hy, hV, hS'⟩

/-- Computations on parts of the states, which are related as the states are. -/
lemma focus {ρ ρ' : Type} {R : ρ → ρ' → Prop} {part : σ → ρ} {put : ρ → σ → σ} {part' : τ → ρ'}
    {put' : ρ' → τ → τ} {z : Run ρ ε α} {z' : Run ρ' ε' α'} (h : Follows R V z z')
    (hpart : ∀ s t, S s t → R (part s) (part' t))
    (hput : ∀ s t r r', S s t → R r r' → S (put r s) (put' r' t)) :
    Follows S V (Run.focus part put z) (Run.focus part' put' z') := by
  intro s t a s' hS hz
  obtain ⟨r, hr, rfl⟩ := yields_focus.mp hz
  obtain ⟨a', r', hr', hV, hR⟩ := h (hpart s t hS) hr
  exact ⟨a', put' r' t, yields_focus.mpr ⟨r', hr', rfl⟩, hV, hput s t r r' hS hR⟩

end Follows

end

end MipsAsm.Run
