import MipsAsm.Journal.Event

/-!
# Runs

A computation on a state that may fail and reports events. A failing run keeps the state that it has
reached and the events that it has reported. Neither results nor states depend on events: that is
what the projections of `bind` say.
-/

namespace MipsAsm

/-- What is left of a run: its result, the state that it reached, and its events in order. -/
structure Outcome (σ ε α : Type) where
  result : Except ε α
  state  : σ
  events : List Event

/-- A computation on states `σ` with errors `ε`. -/
def Run (σ ε α : Type) : Type := σ → Outcome σ ε α

namespace Run

variable {σ ε ε' α β : Type}

/-- Run a computation from a state. -/
def run (x : Run σ ε α) (s : σ) : Outcome σ ε α := x s

/-- Give a result. -/
protected def pure (a : α) : Run σ ε α := fun s => ⟨.ok a, s, []⟩

/-- Go on with the result of a computation, if it has one. -/
protected def bind (x : Run σ ε α) (f : α → Run σ ε β) : Run σ ε β := fun s =>
  match x s with
  | ⟨.error e, s', events⟩ => ⟨.error e, s', events⟩
  | ⟨.ok a, s', events⟩    =>
    let o := f a s'
    ⟨o.result, o.state, events ++ o.events⟩

instance : Monad (Run σ ε) where
  pure := Run.pure
  bind := Run.bind

/-- Fail. -/
protected def throw (e : ε) : Run σ ε α := fun s => ⟨.error e, s, []⟩

/-- Go on with a value, or fail. -/
def ofExcept (x : Except ε α) : Run σ ε α := fun s => ⟨x, s, []⟩

/-- The state. -/
def get : Run σ ε σ := fun s => ⟨.ok s, s, []⟩

/-- Change the state. -/
def modify (f : σ → σ) : Run σ ε Unit := fun s => ⟨.ok (), f s, []⟩

/-- Report an event. -/
def log (e : Event) : Run σ ε Unit := fun s => ⟨.ok (), s, [e]⟩

/-- Change the error of a failing computation. -/
def mapError (f : ε → ε') (x : Run σ ε α) : Run σ ε' α := fun s =>
  let o := x s
  ⟨o.result.mapError f, o.state, o.events⟩

/-- A computation on a state of its own, which is given and left behind. -/
def embed {σ' : Type} (x : Run σ' ε α) (s' : σ') : Run σ ε α := fun s =>
  let o := x s'
  ⟨o.result, s, o.events⟩

/-- A computation on a part of the state. -/
def focus {σ' : Type} (part : σ → σ') (put : σ' → σ → σ) (x : Run σ' ε α) : Run σ ε α := fun s =>
  let o := x (part s)
  ⟨o.result, put o.state s, o.events⟩

/-! ### Projections -/

@[simp] theorem run_pure (a : α) (s : σ) : (pure a : Run σ ε α).run s = ⟨.ok a, s, []⟩ := rfl

@[simp] theorem run_throw (e : ε) (s : σ) :
    (Run.throw e : Run σ ε α).run s = ⟨.error e, s, []⟩ := rfl

@[simp] theorem run_ofExcept (x : Except ε α) (s : σ) :
    (ofExcept x : Run σ ε α).run s = ⟨x, s, []⟩ := rfl

@[simp] theorem run_get (s : σ) : (get : Run σ ε σ).run s = ⟨.ok s, s, []⟩ := rfl

@[simp] theorem run_modify (f : σ → σ) (s : σ) :
    (modify f : Run σ ε Unit).run s = ⟨.ok (), f s, []⟩ := rfl

@[simp] theorem run_log (e : Event) (s : σ) :
    (log e : Run σ ε Unit).run s = ⟨.ok (), s, [e]⟩ := rfl

@[simp] theorem result_mapError (f : ε → ε') (x : Run σ ε α) (s : σ) :
    ((x.mapError f).run s).result = (x.run s).result.mapError f := rfl

@[simp] theorem state_mapError (f : ε → ε') (x : Run σ ε α) (s : σ) :
    ((x.mapError f).run s).state = (x.run s).state := rfl

@[simp] theorem result_embed {σ' : Type} (x : Run σ' ε α) (s' : σ') (s : σ) :
    ((embed x s').run s).result = (x.run s').result := rfl

@[simp] theorem result_focus {σ' : Type} (part : σ → σ') (put : σ' → σ → σ) (x : Run σ' ε α)
    (s : σ) : ((focus part put x).run s).result = (x.run (part s)).result := rfl

@[simp] theorem state_focus {σ' : Type} (part : σ → σ') (put : σ' → σ → σ) (x : Run σ' ε α)
    (s : σ) : ((focus part put x).run s).state = put (x.run (part s)).state s := rfl

theorem result_bind (x : Run σ ε α) (f : α → Run σ ε β) (s : σ) :
    ((x >>= f).run s).result =
      match (x.run s).result with
      | .error e => .error e
      | .ok a    => ((f a).run (x.run s).state).result := by
  show (Run.bind x f s).result = _
  unfold Run.bind run
  split <;> rename_i h <;> rw [h]

theorem state_bind (x : Run σ ε α) (f : α → Run σ ε β) (s : σ) :
    ((x >>= f).run s).state =
      match (x.run s).result with
      | .error _ => (x.run s).state
      | .ok a    => ((f a).run (x.run s).state).state := by
  show (Run.bind x f s).state = _
  unfold Run.bind run
  split <;> rename_i h <;> rw [h]

end Run

end MipsAsm
