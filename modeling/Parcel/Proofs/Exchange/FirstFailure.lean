import Parcel.Exchange.Recording
import Parcel.Proofs.Exchange.Put

/-!
# The failure that comes first

A conversation that writes a new object reports the error of the first request that fails, and no
other: the handle is given back after that, and whether this fails makes no difference. Which
request fails first is seen by making the requests once more that a holder with a record has noted,
one by one.

## Main definitions

* `replay`: requests made one by one, with the error of the first one that fails
* `ReportsFirst`: conversations that report the error of the first request that fails

## Main results

* `ReportsFirst.bind`, `ReportsFirst.keepOrDelete`: one conversation after another, and a handle
  that is given back
* `Object.reportsFirst_put`: an object that is written under a new handle
-/

namespace Parcel

variable {σ α β : Type} [Holder σ]

/-! ## Requests made once more -/

/-- The requests one by one, whether they fail or not: the error of the first one that fails, and
the state after all of them. -/
def replay (state : σ) : List Request → Option Error × σ
  | [] => (none, state)
  | request :: rest =>
    match Holder.perform request state with
    | (.ok _, changed) => replay changed rest
    | (.error error, changed) => (some error, (replay changed rest).2)

/-- Replaying goes on from where it ended, and an error that came first stays the first. -/
theorem replay_append (state : σ) (first later : List Request) :
    replay state (first ++ later) =
      match replay state first with
      | (none, changed) => replay changed later
      | (some error, changed) => (some error, (replay changed later).2) := by
  induction first generalizing state with
  | nil => rfl
  | cons request rest ih =>
    rw [List.cons_append, replay, replay]
    rcases Holder.perform request state with ⟨error | a, changed⟩
    · dsimp only
      rw [ih]
      rcases replay changed rest with ⟨_ | other, final⟩ <;> rfl
    · exact ih changed

/-- The error that a conversation ends with, if it fails. -/
def failure? : Except Error α → Option Error
  | .ok _ => none
  | .error error => some error

/-- **Conversations that report what failed first**: with a holder that keeps a record they go as
with the holder inside, and the requests noted, made once more, have the same error and lead to the
same state. -/
def ReportsFirst (session : Session σ α) (recorded : Session (Recording σ) α) : Prop :=
  ∀ (state : σ) (earlier : List Request), ∃ made,
    recorded.outcome ⟨state, earlier⟩ =
      ((session.outcome state).1, ⟨(session.outcome state).2, earlier ++ made⟩) ∧
    replay state made = (failure? (session.outcome state).1, (session.outcome state).2)

theorem reportsFirst_pure (a : α) :
    ReportsFirst (pure a : Session σ α) (pure a : Session (Recording σ) α) := by
  intro state earlier
  exact ⟨[], by simp, rfl⟩

theorem reportsFirst_ask (request : Request) :
    ReportsFirst (ask request : Session σ request.Reply) (ask request) := by
  intro state earlier
  refine ⟨[request], rfl, ?_⟩
  rw [Session.outcome_ask, replay]
  rcases Holder.perform request state with ⟨error | a, changed⟩ <;> rfl

namespace ReportsFirst

variable {session : Session σ α} {recorded : Session (Recording σ) α} {next : α → Session σ β}
  {recordedNext : α → Session (Recording σ) β}

theorem bind (h : ReportsFirst session recorded)
    (hnext : ∀ a, ReportsFirst (next a) (recordedNext a)) :
    ReportsFirst (session >>= next) (recorded >>= recordedNext) := by
  -- the second part makes requests only if none failed in the first
  intro state earlier
  obtain ⟨first, hfirst, hreplay⟩ := h state earlier
  rw [Session.outcome_bind, Session.outcome_bind, hfirst]
  rcases hsession : session.outcome state with ⟨error | a, changed⟩
  · rw [hsession] at hreplay
    exact ⟨first, rfl, hreplay⟩
  · rw [hsession] at hreplay
    obtain ⟨later, hlater, hagain⟩ := hnext a changed (earlier ++ first)
    refine ⟨first ++ later, ?_, ?_⟩
    · rw [← List.append_assoc]
      exact hlater
    · rw [replay_append, hreplay]
      exact hagain

/-- A handle that is given back makes no difference to the error. -/
theorem keepOrDelete {h : Handle} {writing : Session σ Unit} {recorded : Session (Recording σ) Unit}
    (hwriting : ReportsFirst writing recorded) :
    ReportsFirst (keepOrDelete h writing) (keepOrDelete h recorded) := by
  intro state earlier
  obtain ⟨made, hmade, hreplay⟩ := hwriting state earlier
  rw [outcome_keepOrDelete, outcome_keepOrDelete, hmade]
  rcases hfirst : writing.outcome state with ⟨error | _, changed⟩
  · rw [hfirst] at hreplay
    -- the deletion comes behind the first failure, so its own failure is not the one reported
    refine ⟨made ++ [.delete h], ?_, ?_⟩
    · rw [← List.append_assoc]
      rfl
    · have hdelete : (replay changed [.delete h]).2 = (Holder.perform (.delete h) changed).2 := by
        rw [replay]
        rcases Holder.perform (.delete h) changed with ⟨_ | _, final⟩ <;> rfl
      rw [replay_append, hreplay]
      exact congrArg (Prod.mk (some error)) hdelete
  · rw [hfirst] at hreplay
    exact ⟨made, rfl, hreplay⟩

end ReportsFirst

/-! ## New objects -/

theorem reportsFirst_pushAll (h : Handle) (args : List Bytes) :
    ReportsFirst (pushAll h args : Session σ Unit) (pushAll h args) := by
  induction args with
  | nil => exact reportsFirst_pure ()
  | cons arg rest ih => exact (reportsFirst_ask (.push h arg)).bind fun _ => ih

theorem Payload.reportsFirst_write (p : Payload) (h : Handle) :
    ReportsFirst (p.write h : Session σ Unit) (p.write h) :=
  (reportsFirst_ask (.setMetadata h (Entries.encode p.metadata))).bind fun _ =>
    reportsFirst_pushAll h p.args

theorem Object.reportsFirst_allocate (o : Object) :
    ReportsFirst (o.allocate : Session σ Handle) o.allocate := by
  cases o with
  | data p => exact reportsFirst_ask .allocateData
  | command c => exact reportsFirst_ask (.allocateCommand c.interface.text c.operation.text)

/-- **A new object** that is not written is refused with the error of the first request that
failed. -/
theorem Object.reportsFirst_put (o : Object) :
    ReportsFirst (o.put none : Session σ Handle) (o.put none) := by
  rw [put_none, put_none]
  exact o.reportsFirst_allocate.bind fun h => (o.payload.reportsFirst_write h).keepOrDelete

end Parcel
