import Parcel.Exchange

/-!
# How conversations end

The outcome of a conversation is put together from those of its parts, so that whole transfers can
be followed request by request.

## Main results

* `outcome_ask`: a request and its answer
* `outcome_look`, `outcome_write`: steps that are taken on the state itself
* `outcome_bind`, `outcome_tryCatch`: one conversation after another, and one that is rescued
* `outcome_bind_of_ok`, `exists_of_outcome_bind`: a first part that succeeds, and one that has to
* `outcome_write_throw`: what was written before an error
-/

namespace Parcel.Session

variable {σ α β : Type} {state state' : σ} {session : Session σ α} {next : α → Session σ β}

@[simp] theorem outcome_pure (a : α) :
    outcome (pure a : Session σ α) state = (.ok a, state) := rfl

@[simp] theorem outcome_throw (error : Error) :
    outcome (throw error : Session σ α) state = (.error error, state) := rfl

@[simp] theorem outcome_ofExcept (result : Except Error α) :
    outcome (ofExcept result : Session σ α) state = (result, state) := rfl

@[simp] theorem outcome_getThe :
    outcome (getThe σ : Session σ σ) state = (.ok state, state) := rfl

@[simp] theorem outcome_look (item : σ → Except Error α) (state : σ) :
    outcome (look item) state = (item state, state) := rfl

@[simp] theorem outcome_write (change : σ → σ) (state : σ) :
    outcome (write change) state = (.ok (), change state) := rfl

@[simp] theorem outcome_ask [Holder σ] (request : Request) :
    outcome (ask request : Session σ request.Reply) state = Holder.perform request state := rfl

/-- **One conversation after another**: an error in the first one ends both. -/
theorem outcome_bind : outcome (session >>= next) state =
    match outcome session state with
    | (.ok a, state') => outcome (next a) state'
    | (.error error, state') => (.error error, state') := by
  show (match outcome session state with
    | (result, state') => StateT.run (ExceptT.bindCont next result) state') = _
  obtain ⟨_ | a, state'⟩ := outcome session state
  · rfl
  · rfl

theorem outcome_bind_of_ok {a : α} (h : outcome session state = (.ok a, state')) :
    outcome (session >>= next) state = outcome (next a) state' := by
  rw [outcome_bind, h]

theorem outcome_bind_of_error {error : Error} (h : outcome session state = (.error error, state')) :
    outcome (session >>= next) state = (.error error, state') := by
  rw [outcome_bind, h]

/-- **Nothing is taken back**: what a step has written stays if the next one fails. -/
theorem outcome_write_throw (change : σ → σ) (error : Error) (state : σ) :
    outcome (do write change; throw error : Session σ α) state = (.error error, change state) := by
  rw [outcome_bind_of_ok (outcome_write change state), outcome_throw]

/-- A conversation that succeeds has a first part that does. -/
theorem exists_of_outcome_bind {b : β} (h : outcome (session >>= next) state = (.ok b, state')) :
    ∃ a between, outcome session state = (.ok a, between) ∧
      outcome (next a) between = (.ok b, state') := by
  rw [outcome_bind] at h
  split at h
  · next a between hfirst => exact ⟨a, between, hfirst, h⟩
  · simp at h

theorem outcome_map {f : α → β} : outcome (f <$> session) state =
    ((outcome session state).1.map f, (outcome session state).2) := by
  rw [← bind_pure_comp, outcome_bind]
  obtain ⟨_ | a, state'⟩ := outcome session state
  · rfl
  · rfl

/-- **A rescued conversation**: the rescue goes on from where the error was raised. -/
theorem outcome_tryCatch {rescue : Error → Session σ α} :
    outcome (tryCatch session rescue) state =
      match outcome session state with
      | (.ok a, state') => (.ok a, state')
      | (.error error, state') => outcome (rescue error) state' := by
  cases hfirst : outcome session state with
  | mk result state' =>
    have hrun : outcome (tryCatch session rescue) state =
        (ExceptT.tryCatch session rescue).run.run state := rfl
    have hfirst : StateT.run session state = (result, state') := hfirst
    rw [hrun, ExceptT.tryCatch, ExceptT.run_mk, StateT.run_bind, hfirst]
    cases result <;> rfl

end Parcel.Session
