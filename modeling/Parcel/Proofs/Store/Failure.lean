import Parcel.Proofs.Store.History

/-!
# Requests that fail leave no trace

The steps of a request write to the store itself, and what a step has written stays if a later one
fails. Still a request that fails leaves the store as it was: its steps write when all that can fail
has been checked, or what they write before is there already. A request that is answered changes no
object but the one it is about or gives a handle to. So a run goes as if those of its requests that
fail had never been made: the others give out the same handles and leave the same store behind.

## Main definitions

* `Store.accepted`: the requests of a run that do not fail
* `Store.FailsCleanly`: what holds of requests that fail, and of the objects of other handles

## Main results

* `Transition.eq_of_error`, `Transition.object_eq`: one request
* `run_accepted`: a run without the requests that fail
* `failsCleanly_run`: every store that requests can lead to
-/

namespace Parcel.Store

variable {s s' : Store} {k : Handle} {request : Request} {reply : Except Error request.Reply}

/-- **A request that fails** changes nothing. -/
theorem Transition.eq_of_error {error : Error} (ht : Transition s request (.error error) s') :
    s' = s := by
  cases ht
  rfl

/-- **The frame of a request**: objects stay, unless the request is about their handle or gives it
out. -/
theorem Transition.object_eq (hs : s.objects.WellFormed) (ht : Transition s request reply s')
    (hrequest : request.handle? ≠ some k)
    (hissued : ∀ kind, request.allotment reply ≠ some (k, kind)) : s'.object k = s.object k := by
  -- an object that changes is that of the handle in the request or in its reply
  cases ht with
  | failed error => rfl
  | read => rfl
  | issued hobject hinsert hallotted =>
    rw [(object_insert hs hinsert).2, if_neg]
    rintro rfl
    exact hissued _ hallotted
  | edited hedit hhandle =>
    obtain ⟨hlive, hkind, hreadable⟩ := hedit
    rw [object_withObject, if_neg]
    rintro rfl
    exact hrequest hhandle
  | released hdelete hhandle =>
    rw [Store.object, Store.object, get?_delete hdelete, if_neg]
    rintro rfl
    exact hrequest hhandle

/-- The requests of a run that do not fail. -/
def accepted (s : Store) : List Request → List Request
  | [] => []
  | request :: rest =>
    match s.perform request with
    | (.ok _, changed) => request :: accepted changed rest
    | (.error _, changed) => accepted changed rest

/-- **A run without the requests that fail** gives out the same handles and leads to the same
store. -/
theorem run_accepted (s : Store) (requests : List Request) :
    s.run (s.accepted requests) = s.run requests := by
  -- a request that fails gives out no handle, and the rest goes on from the same store
  induction requests generalizing s with
  | nil => rfl
  | cons request rest ih =>
    have ht := transition_perform s request
    rw [accepted]
    rcases hperform : s.perform request with ⟨_ | a, changed⟩
    · rw [hperform] at ht
      obtain rfl := ht.eq_of_error
      simp only [run, hperform, request.allotment_error, ih]
      rfl
    · simp only [run, hperform, ih]

/-- **Stores that fail cleanly.** -/
structure FailsCleanly (s : Store) : Prop where
  /-- A request that fails changes nothing, though nothing that its steps write is taken back. -/
  unchanged : ∀ request error, (s.perform request).1 = .error error → (s.perform request).2 = s
  /-- A request changes no object but that of the handle it is about, or gives out. -/
  others : ∀ request k, request.handle? ≠ some k →
    (∀ kind, request.allotment (s.perform request).1 ≠ some (k, kind)) →
      (s.perform request).2.object k = s.object k
  /-- A run without the requests that fail is the same. -/
  run : ∀ requests, s.run (s.accepted requests) = s.run requests

/-- **Every store that requests can lead to** fails cleanly. -/
theorem failsCleanly_run {limit : Option Nat} (hs : ofLimit limit = .ok s)
    (requests : List Request) :
    (s.run requests).2.FailsCleanly where
  unchanged request error herror := by
    have ht := transition_perform (s.run requests).2 request
    rw [herror] at ht
    exact ht.eq_of_error
  others request k hrequest hissued :=
    (transition_perform _ request).object_eq (sound_run hs requests).advance.wellFormed
      hrequest hissued
  run := run_accepted _

end Parcel.Store
