import Parcel.Proofs.Boundary.Calls

/-!
# Histories of the shared store

Whatever its callers do, outside or inside, the store behind the boundary is one that requests lead
to: a call makes one request that the store answers, or leaves the store alone.

## Main definitions

* `Call.Access`: what a call does to the shared store, with its answer
* `Shared.Reached`: the shared stores that callers can lead to

## Main results

* `Call.access_run`: every call is an access
* `Reached.exists_run`: the store behind the boundary has a history of requests
* `Reached.sound`: and is sound
-/

namespace Parcel

/-! ## What a call does -/

namespace Shared

/-- A request at the boundary fails and changes nothing, or is answered by the store. -/
theorem request_cases (shared : Shared) (hasPlace : Bool) (request : Request) :
    (∃ status, shared.request hasPlace (ask request) = ((status, none), shared)) ∨
      ∃ a s', shared.store.perform request = (.ok a, s') ∧
        shared.request hasPlace (ask request) =
          ((.ok, some a), { shared with store := s' }) := by
  obtain ⟨s, poisoned⟩ := shared
  cases hasPlace with
  | false => exact .inl ⟨.invalidArgument, rfl⟩
  | true =>
    cases poisoned with
    | true => exact .inl ⟨.internalError, rfl⟩
    | false =>
      have hrequest := request_ofStore (s := s) (ask request)
      have ht := Store.transition_perform s request
      rw [outcome_ask_store] at hrequest
      rcases hperform : s.perform request with ⟨error | a, s'⟩
      · -- the store that answers with an error is as it was
        rw [hperform] at ht hrequest
        cases ht
        exact .inl ⟨.ofError error, hrequest⟩
      · rw [hperform] at hrequest
        exact .inr ⟨a, s', rfl, hrequest⟩

/-- A delivery leaves the store alone. -/
theorem deliver_eq {α : Type} (shared : Shared) (target : Target)
    (item : Store → Except Error α) (delivery : α → Delivery) :
    ∃ made, shared.deliver target item delivery = (.delivery made, shared) := by
  rw [deliver]
  split
  · exact ⟨_, rfl⟩
  · split
    · exact ⟨_, rfl⟩
    · exact ⟨_, rfl⟩

end Shared

namespace Call

/-- **What a call does** to the shared store, with its answer. -/
inductive Access (call : Call) (shared : Shared) : Answer → Shared → Prop
  /-- It fails, or only looks. -/
  | unchanged {answer : Answer} (hissued : answer.issued = none) : Access call shared answer shared
  /-- It makes a request about its own handle, which the store answers. -/
  | made {answer : Answer} {request : Request} {a : request.Reply} {s' : Store}
      (hperform : shared.store.perform request = (.ok a, s'))
      (hhandle : request.handle? = call.handle?) (hstatus : answer.status = .ok)
      (hissued : answer.issued = (request.allotment (.ok a)).map Prod.fst) :
      Access call shared answer { shared with store := s' }

variable {call : Call} {shared : Shared}

theorem access_request (hasPlace : Bool) (request : Request)
    (answer : Status → Option request.Reply → Answer) (hhandle : request.handle? = call.handle?)
    (hfailed : ∀ status, (answer status none).issued = none)
    (hstatus : ∀ a, (answer .ok (some a)).status = .ok)
    (hissued : ∀ a, (answer .ok (some a)).issued = (request.allotment (.ok a)).map Prod.fst) :
    call.Access shared
      (answer (shared.request hasPlace (ask request)).1.1
        (shared.request hasPlace (ask request)).1.2)
      (shared.request hasPlace (ask request)).2 := by
  rcases shared.request_cases hasPlace request with ⟨status, heq⟩ | ⟨a, s', hperform, heq⟩
  · rw [heq]
    exact .unchanged (hfailed status)
  · rw [heq]
    exact .made hperform hhandle (hstatus a) (hissued a)

theorem access_command (request : Request) (hhandle : request.handle? = call.handle?)
    (hissued : ∀ a, request.allotment (.ok a) = none) :
    call.Access shared (.plain (shared.request true (ask request)).1.1)
      (shared.request true (ask request)).2 := by
  refine access_request true request (fun status _ => .plain status) hhandle (fun _ => rfl)
    (fun _ => rfl) fun a => ?_
  rw [hissued]
  rfl

theorem access_deliver {α : Type} (target : Target) (item : Store → Except Error α)
    (delivery : α → Delivery) :
    call.Access shared (shared.deliver target item delivery).1
      (shared.deliver target item delivery).2 := by
  obtain ⟨made, heq⟩ := shared.deliver_eq target item delivery
  rw [heq]
  exact .unchanged rfl

/-- **Every call is an access.** -/
theorem access_run (call : Call) (shared : Shared) :
    call.Access shared (call.run shared).1 (call.run shared).2 := by
  cases call with
  | newData hasPlace =>
    exact access_request hasPlace .allocateData .handle rfl (fun _ => rfl) (fun _ => rfl)
      fun _ => rfl
  | newCommand first second hasPlace =>
    rw [run]
    split
    · exact access_request hasPlace (.allocateCommand _ _) .handle rfl (fun _ => rfl) (fun _ => rfl)
        fun _ => rfl
    · exact .unchanged rfl
  | delete h => exact access_command (.delete h) rfl fun _ => rfl
  | clear h => exact access_command (.clear h) rfl fun _ => rfl
  | kind h hasPlace =>
    exact access_request hasPlace (.kind h) .kind rfl (fun _ => rfl) (fun _ => rfl) fun _ => rfl
  | argCount h hasPlace =>
    exact access_request hasPlace (.argCount h) .number rfl (fun _ => rfl) (fun _ => rfl)
      fun _ => rfl
  | setEncoded h input =>
    rw [run]
    split
    · exact .unchanged rfl
    · exact access_command (.setMetadata h _) rfl fun _ => rfl
  | setText h input =>
    rw [run]
    split
    · exact .unchanged rfl
    · -- the text is encoded before the store is needed
      split
      · exact .unchanged rfl
      · exact access_command (.setMetadata h _) rfl fun _ => rfl
  | push h input =>
    rw [run]
    split
    · exact .unchanged rfl
    · exact access_command (.push h _) rfl fun _ => rfl
  | getEncoded h target | getText h target | getArg h index target | getInterface h target
  | getOperation h target | dump h target => exact access_deliver target _ _

/-- **A call makes one request at most.** -/
theorem Access.store_cases {answer : Answer} {changed : Shared}
    (haccess : call.Access shared answer changed) :
    changed.store = shared.store ∨
      ∃ request, changed.store = (shared.store.perform request).2 := by
  cases haccess with
  | unchanged => exact .inl rfl
  | @made request a s' hperform => exact .inr ⟨request, by rw [hperform]⟩

end Call

/-! ## Shared stores with a history -/

namespace Shared

variable {shared : Shared}

/-- **Shared stores that callers can lead to**: a store without objects, with a bound or without,
then calls from outside, requests from inside, and callers that die. A conversation from inside
makes one request after the other. -/
inductive Reached : Shared → Prop
  | start {limit : Option Nat} {s : Store} (hs : Store.ofLimit limit = .ok s) : Reached (ofStore s)
  | call {shared : Shared} (h : Reached shared) (call : Call) : Reached (call.run shared).2
  | request {shared : Shared} (h : Reached shared) (request : Request) :
      Reached (shared.withStore (ask request)).2
  | poison {shared : Shared} (h : Reached shared) : Reached shared.poison.2

theorem reached_empty : (ofStore .empty).Reached :=
  .start Store.ofLimit_none

theorem store_withStore (shared : Shared) (request : Request) :
    (shared.withStore (ask request)).2.store = shared.store ∨
      (shared.withStore (ask request)).2.store = (shared.store.perform request).2 := by
  rw [withStore]
  split
  · exact .inl rfl
  · exact .inr rfl

/-- **The store behind the boundary** is one that requests lead to. -/
theorem Reached.exists_run (h : shared.Reached) : ∃ limit s₀ requests,
    Store.ofLimit limit = .ok s₀ ∧ shared.store = (s₀.run requests).2 := by
  -- each step puts one request at the end of the history, or none
  induction h with
  | start hs => exact ⟨_, _, [], hs, rfl⟩
  | call h call ih =>
    obtain ⟨limit, s₀, requests, hs, hstore⟩ := ih
    rcases (call.access_run _).store_cases with hsame | ⟨request, hperform⟩
    · exact ⟨limit, s₀, requests, hs, hsame.trans hstore⟩
    · refine ⟨limit, s₀, requests ++ [request], hs, ?_⟩
      rw [hperform, hstore, Store.run_append]
      rfl
  | request h request ih =>
    obtain ⟨limit, s₀, requests, hs, hstore⟩ := ih
    rcases store_withStore _ request with hsame | hperform
    · exact ⟨limit, s₀, requests, hs, hsame.trans hstore⟩
    · refine ⟨limit, s₀, requests ++ [request], hs, ?_⟩
      rw [hperform, hstore, Store.run_append]
      rfl
  | poison h ih => exact ih

/-- **The store behind the boundary is sound.** -/
theorem Reached.sound (h : shared.Reached) : ∃ allotted, Store.Sound allotted shared.store := by
  obtain ⟨limit, s₀, requests, hs, hstore⟩ := h.exists_run
  rw [hstore]
  exact ⟨_, Store.sound_run hs requests⟩

end Shared

end Parcel
