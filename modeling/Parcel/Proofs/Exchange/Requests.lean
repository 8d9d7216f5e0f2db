import Parcel.Exchange.Transfer
import Parcel.Proofs.Exchange.Fetch

/-!
# Transfers to a store are requests

Writing an object to a store is a conversation: one request after the other, with the answers
between them. Whether it succeeds, fails on the way or gives a new handle back, the store afterwards
is one that a run of requests leads to.

## Main definitions

* `Session.MakesRequests`: conversations that do nothing to a store but make requests

## Main results

* `MakesRequests.bind`, `MakesRequests.tryCatch`: one conversation after another, and one that is
  rescued
* `Object.makesRequests_put`: every transfer of an object to a store
-/

namespace Parcel

namespace Session

variable {α β : Type} {session : Session Store α} {next : α → Session Store β}

/-- **Conversations that make requests**, one after the other, and do nothing else to a store. -/
def MakesRequests (session : Session Store α) : Prop :=
  ∀ s, ∃ requests : List Request, (session.outcome s).2 = (s.run requests).2

theorem makesRequests_pure (a : α) : MakesRequests (pure a : Session Store α) :=
  fun _ => ⟨[], rfl⟩

theorem makesRequests_throw (error : Error) : MakesRequests (throw error : Session Store α) :=
  fun _ => ⟨[], rfl⟩

theorem makesRequests_ask (request : Request) :
    MakesRequests (ask request : Session Store request.Reply) :=
  fun _ => ⟨[request], rfl⟩

theorem MakesRequests.bind (hsession : session.MakesRequests)
    (hnext : ∀ a, (next a).MakesRequests) :
    (session >>= next).MakesRequests := by
  -- the requests of the second part are known once the first one has answered
  intro s
  obtain ⟨first, hfirst⟩ := hsession s
  rw [outcome_bind]
  split
  · next a between hok =>
    rw [hok] at hfirst
    obtain ⟨later, hlater⟩ := hnext a between
    refine ⟨first ++ later, ?_⟩
    rw [Store.run_append, ← hfirst, hlater]
  · next error between herror =>
    rw [herror] at hfirst
    exact ⟨first, hfirst⟩

theorem MakesRequests.tryCatch {rescue : Error → Session Store α} (hsession : session.MakesRequests)
    (hrescue : ∀ error, (rescue error).MakesRequests) :
    (MonadExcept.tryCatch session rescue).MakesRequests := by
  intro s
  obtain ⟨first, hfirst⟩ := hsession s
  rw [outcome_tryCatch]
  split
  · next a between hok =>
    rw [hok] at hfirst
    exact ⟨first, hfirst⟩
  · next error between herror =>
    rw [herror] at hfirst
    obtain ⟨later, hlater⟩ := hrescue error between
    refine ⟨first ++ later, ?_⟩
    rw [Store.run_append, ← hfirst, hlater]

end Session

open Session

theorem makesRequests_pushAll (h : Handle) (args : List Bytes) :
    (pushAll h args : Session Store Unit).MakesRequests := by
  induction args with
  | nil => exact makesRequests_pure ()
  | cons arg rest ih => exact (makesRequests_ask (.push h arg)).bind fun _ => ih

theorem Payload.makesRequests_write (p : Payload) (h : Handle) :
    (p.write h : Session Store Unit).MakesRequests :=
  (makesRequests_ask (.setMetadata h (Entries.encode p.metadata))).bind fun _ =>
    makesRequests_pushAll h p.args

theorem makesRequests_keepOrDelete (h : Handle) {writing : Session Store Unit}
    (hwriting : writing.MakesRequests) : (keepOrDelete h writing).MakesRequests := by
  -- the handle that is given back is one more request, which may fail
  refine (hwriting.bind fun _ => makesRequests_pure h).tryCatch fun error => ?_
  have hdelete : (tryCatch (ask (.delete h)) fun _ => pure () : Session Store Unit).MakesRequests :=
    (makesRequests_ask (.delete h)).tryCatch fun _ => makesRequests_pure ()
  exact hdelete.bind fun _ => makesRequests_throw error

theorem Payload.makesRequests_put (p : Payload) (target : Option Handle) :
    (p.put target : Session Store Handle).MakesRequests := by
  cases target with
  | none =>
    exact (makesRequests_ask .allocateData).bind fun h =>
      makesRequests_keepOrDelete h (p.makesRequests_write h)
  | some h =>
    refine (makesRequests_ask (.clear h)).bind fun _ => ?_
    exact (p.makesRequests_write h).bind fun _ => makesRequests_pure h

theorem makesRequests_requireCommand (h : Handle) :
    (requireCommand h : Session Store Unit).MakesRequests := by
  refine (makesRequests_ask (.kind h)).bind fun kind => ?_
  split
  · exact makesRequests_throw _
  · exact makesRequests_pure ()

theorem Command.makesRequests_put (c : Command) (target : Option Handle) :
    (c.put target : Session Store Handle).MakesRequests := by
  cases target with
  | none =>
    exact (makesRequests_ask (.allocateCommand c.interface.text c.operation.text)).bind fun h =>
      makesRequests_keepOrDelete h (c.payload.makesRequests_write h)
  | some h =>
    refine (makesRequests_requireCommand h).bind fun _ => ?_
    refine (makesRequests_ask (.clear h)).bind fun _ => ?_
    refine (c.payload.makesRequests_write h).bind fun _ => ?_
    exact (makesRequests_ask (.setNames h c.interface.text c.operation.text)).bind fun _ =>
      makesRequests_pure h

/-- **A transfer to a store** is a run of requests, whether it succeeds or not. -/
theorem Object.makesRequests_put (o : Object) (target : Option Handle) :
    (o.put target : Session Store Handle).MakesRequests := by
  cases o with
  | data p => exact p.makesRequests_put target
  | command c => exact c.makesRequests_put target

end Parcel
