import SharedPlan.Error

/-!
# SharedPlan.Attempt

Steps that change a state and may fail.  What a step changed before it failed
stays changed, so a failed attempt has an outcome and a state like any other.
-/

namespace SharedPlan

/-- A step over states of type `σ` that answers an `α` or fails. -/
abbrev Attempt (σ α : Type) := ExceptT PlanError (StateM σ) α

namespace Attempt

variable {σ τ α : Type}

/-- The outcome of a step and the state after it. -/
def outcome (a : Attempt σ α) (s : σ) : Except PlanError α × σ := a.run.run s

/-- A step that leaves the state alone. -/
def ofExcept (r : Except PlanError α) : Attempt σ α := ExceptT.mk (pure r)

/-- A step given by its outcome and the state after it. -/
def ofOutcome (f : σ → Except PlanError α × σ) : Attempt σ α := ExceptT.mk fun s => f s

/-- A step that answers the new state, or fails and changes nothing. -/
def update (f : σ → Except PlanError σ) : Attempt σ Unit :=
  ofOutcome fun s =>
    match f s with
    | .ok s' => (.ok (), s')
    | .error e => (.error e, s)

/-- A step on a part of a larger state. -/
def within (part : τ → σ) (put : τ → σ → τ) (a : Attempt σ α) : Attempt τ α :=
  ofOutcome fun t =>
    let (r, s) := a.outcome (part t)
    (r, put t s)

/-! ## Outcomes -/

variable {β : Type}

@[simp] theorem outcome_pure (a : α) (s : σ) :
    (pure a : Attempt σ α).outcome s = (.ok a, s) := rfl

@[simp] theorem outcome_throw (e : PlanError) (s : σ) :
    (throw e : Attempt σ α).outcome s = (.error e, s) := rfl

/-- A step after another runs on the state that the first left, if that succeeded. -/
theorem outcome_bind (a : Attempt σ α) (f : α → Attempt σ β) (s : σ) :
    (a >>= f).outcome s =
      match a.outcome s with
      | (.ok x, s') => (f x).outcome s'
      | (.error e, s') => (.error e, s') := by
  change ExceptT.bindCont f (a.outcome s).1 (a.outcome s).2 = _
  rcases a.outcome s with ⟨_ | _, _⟩ <;> rfl

@[simp] theorem outcome_get (s : σ) : (get : Attempt σ σ).outcome s = (.ok s, s) := rfl

@[simp] theorem outcome_modify (f : σ → σ) (s : σ) :
    (modify f : Attempt σ Unit).outcome s = (.ok (), f s) := rfl

@[simp] theorem outcome_ofExcept (r : Except PlanError α) (s : σ) :
    (ofExcept r : Attempt σ α).outcome s = (r, s) := rfl

@[simp] theorem outcome_ofOutcome (f : σ → Except PlanError α × σ) (s : σ) :
    (ofOutcome f).outcome s = f s := rfl

/-- An update that fails leaves the state as it was. -/
theorem outcome_update (f : σ → Except PlanError σ) (s : σ) :
    (update f).outcome s =
      match f s with
      | .ok s' => (.ok (), s')
      | .error e => (.error e, s) := rfl

/-- An update that fails changes nothing. -/
theorem eq_of_update_eq_error {f : σ → Except PlanError σ} {s t : σ} {e : PlanError}
    (h : (update f).outcome s = (.error e, t)) : t = s := by
  rw [outcome_update] at h
  split at h
  · cases h
  · exact (Prod.mk.inj h).2.symm

/-- A computation within a part leaves the rest as it is. -/
@[simp] theorem outcome_within (part : τ → σ) (put : τ → σ → τ) (a : Attempt σ α) (t : τ) :
    (within part put a).outcome t = ((a.outcome (part t)).1, put t (a.outcome (part t)).2) := rfl

end Attempt

/-! ## Answers that agree -/

/-- Both fail with the same error, or both answer and the answers are related. -/
inductive Agree {α β : Type} (R : α → β → Prop) : Except PlanError α → Except PlanError β → Prop
  | ok {a : α} {b : β} : R a b → Agree R (.ok a) (.ok b)
  | error (e : PlanError) : Agree R (.error e) (.error e)

/-- Computations that agree so far, and from there on, agree. -/
theorem Agree.bind {α β γ δ : Type} {R : α → β → Prop} {S : γ → δ → Prop}
    {r : Except PlanError α} {s : Except PlanError β} (h : Agree R r s)
    {f : α → Except PlanError γ} {f' : β → Except PlanError δ}
    (hf : ∀ a b, r = .ok a → s = .ok b → R a b → Agree S (f a) (f' b)) :
    Agree S (r >>= f) (s >>= f') := by
  cases h with
  | ok hab => exact hf _ _ rfl rfl hab
  | error e => exact .error e

/-- What is the same on both sides may be looked up before. -/
theorem Agree.bind_self {α γ δ : Type} {S : γ → δ → Prop} (r : Except PlanError α)
    {f : α → Except PlanError γ} {f' : α → Except PlanError δ}
    (hf : ∀ a, Agree S (f a) (f' a)) : Agree S (r >>= f) (r >>= f') := by
  cases r with
  | ok a => exact hf a
  | error e => exact .error e

/-- Answers agree as what is made of them does. -/
theorem Agree.of_map {α β : Type} {R : β → β → Prop} {f : α → β} {r s : Except PlanError α}
    (h : Agree R (r.map f) (s.map f)) : Agree (fun a b => R (f a) (f b)) r s := by
  cases r <;> cases s <;> cases h
  · exact .error _
  · exact .ok ‹_›

end SharedPlan
