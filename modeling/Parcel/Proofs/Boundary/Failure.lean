import Parcel.Proofs.Boundary.History
import Parcel.Proofs.Boundary.Isolation
import Parcel.Proofs.Store.Failure

/-!
# Calls that fail leave no trace

A call that fails leaves the shared store as it was, whatever was wrong with it: what its caller
passed, the handle, the store's lack of room, or a caller who died before. The boundary takes
nothing back either: pointers are checked before the store is needed, so that a new handle has a
place to go to. A call that succeeds changes no object but the one it is about or gives a handle to.
So the other callers cannot tell whether a call that fails was made: they get the same answers
without it, handles included, and leave the same store behind.

## Main definitions

* `Shared.accepted`: the calls of a run that succeed
* `Shared.FailsCleanly`: what holds of calls that fail, and of the objects of other handles

## Main results

* `Access.eq_of_failed`, `Access.object_eq`: one call
* `turns_accepted`: a run without the calls that fail
* `failures_leave_no_trace`: every store and every shared store that callers can lead to
-/

namespace Parcel

namespace Call.Access

variable {call : Call} {shared changed : Shared} {answer : Answer} {k : Handle}

/-- **A call that fails** changes nothing. -/
theorem eq_of_failed (haccess : call.Access shared answer changed) (hfailed : answer.status ≠ .ok) :
    changed = shared := by
  cases haccess with
  | unchanged => rfl
  | made hperform hhandle hstatus => exact absurd hstatus hfailed

/-- **The frame of a call**: objects stay, unless the call is about their handle or brings it. -/
theorem object_eq (hs : shared.store.objects.WellFormed)
    (haccess : call.Access shared answer changed) (hcall : call.handle? ≠ some k)
    (hissued : answer.issued ≠ some k) : changed.store.object k = shared.store.object k := by
  cases haccess with
  | unchanged => rfl
  | @made request a s' hperform hhandle hstatus hallotted =>
    -- the frame is that of the request that the call makes
    have ht := Store.transition_perform shared.store request
    rw [hperform] at ht
    apply ht.object_eq hs
    · rwa [hhandle]
    · intro kind hallotment
      rw [hallotted, hallotment] at hissued
      exact hissued rfl

end Call.Access

namespace Shared

variable {ι : Type} {shared : Shared}

/-- The calls of a run that succeed. -/
def accepted (shared : Shared) : List (ι × Call) → List (ι × Call)
  | [] => []
  | (client, call) :: rest =>
    let (answer, changed) := call.run shared
    if answer.status = .ok then (client, call) :: accepted changed rest else accepted changed rest

/-- **A run without the calls that fail**: the other calls get the same answers, and the shared
store afterwards is the same. -/
theorem turns_accepted (shared : Shared) (calls : List (ι × Call)) :
    shared.turns (shared.accepted calls) =
      ((shared.turns calls).1.filter fun turn => turn.answer.status = .ok,
        (shared.turns calls).2) := by
  -- behind a call that fails, the run goes on from the same shared store
  induction calls generalizing shared with
  | nil => rfl
  | cons entry rest ih =>
    obtain ⟨client, call⟩ := entry
    have haccess := call.access_run shared
    by_cases hstatus : (call.run shared).1.status = .ok
    · simp only [accepted, turns, if_pos hstatus, ih]
      rw [List.filter_cons_of_pos (by simpa using hstatus)]
    · rw [accepted, turns]
      simp only [if_neg hstatus]
      rw [List.filter_cons_of_neg (by simpa using hstatus), haccess.eq_of_failed hstatus, ih]

/-- **Shared stores that fail cleanly.** -/
structure FailsCleanly (shared : Shared) : Prop where
  /-- A call that fails changes nothing. -/
  unchanged : ∀ call : Call, (call.run shared).1.status ≠ .ok → (call.run shared).2 = shared
  /-- A call changes no object but that of the handle it is about, or brings. -/
  others : ∀ (call : Call) (k : Handle), call.handle? ≠ some k →
    (call.run shared).1.issued ≠ some k →
      (call.run shared).2.store.object k = shared.store.object k
  /-- A run without the calls that fail brings the same answers and leads to the same shared
  store. -/
  turns : ∀ {ι : Type} (calls : List (ι × Call)), shared.turns (shared.accepted calls) =
    ((shared.turns calls).1.filter fun turn => turn.answer.status = .ok, (shared.turns calls).2)

theorem Reached.failsCleanly (h : shared.Reached) : shared.FailsCleanly where
  unchanged call := (call.access_run shared).eq_of_failed
  others call k := by
    obtain ⟨allotted, hsound⟩ := h.sound
    exact (call.access_run shared).object_eq hsound.advance.wellFormed
  turns := turns_accepted shared

end Shared

/-- **Failures leave no trace.** In every store that requests lead to, a request that fails changes
nothing, and in every shared store that callers lead to, a call that fails changes nothing, whatever
was passed, and without any step being taken back. A request or a call that succeeds changes no
object but its own. A run without those that fail gives out the same handles, brings the same
answers and leads to the same store. -/
theorem failures_leave_no_trace {limit : Option Nat} {s : Store} (hs : Store.ofLimit limit = .ok s)
    (requests : List Request) {shared : Shared} (hshared : shared.Reached) :
    (s.run requests).2.FailsCleanly ∧ shared.FailsCleanly :=
  ⟨Store.failsCleanly_run hs requests, hshared.failsCleanly⟩

/-- A store that is full with a command that has an argument. Requests and calls fail for want of
room, and for names, metadata, pointers and handles that are no good; each leaves the command as it
was. -/
theorem failures_leave_no_trace_full :
    let s : Store := { Store.empty with limit := some 1 }
    let name := some (Utf8.bytes "lamp" ++ [terminator])
    let badName := some (Utf8.bytes "a b" ++ [terminator])
    let requests : List Request := [.allocateCommand "lamp" "lamp", .push 1 [1]]
    let shared := ((Call.push 1 (.bytes [1])).run
      ((Call.newCommand name name true).run (.ofStore s)).2).2
    let lamp : StoredObject := ⟨emptyEncoding, [[1]], some ("lamp", "lamp")⟩
    let refusedRequests : List Request := [.allocateData, .allocateCommand "a b" "lamp",
      .setNames 1 "lamp" "a b", .setMetadata 1 [0xff], .delete 7]
    let refusedCalls : List Call := [.newData true, .newCommand name badName true,
      .setEncoded 1 (.bytes [0xff]), .setText 1 (some (Utf8.bytes "[" ++ [terminator])),
      .newData false, .newCommand none name true, .setText 1 none, .push 1 (.null 1), .delete 7]
    ((s.run requests).2.FailsCleanly ∧ shared.FailsCleanly) ∧
      (s.run requests).2.object 1 = .ok lamp ∧ shared.store.object 1 = .ok lamp ∧
      refusedRequests.map (fun request => Status.ofResult ((s.run requests).2.perform request).1) =
        [.allocationFailed, .invalidIdentifier, .invalidIdentifier, .malformedEncoding,
          .invalidHandle] ∧
      refusedCalls.map (fun call => (call.run shared).1.status) =
        [.allocationFailed, .invalidIdentifier, .malformedEncoding, .malformedEncoding,
          .invalidArgument, .invalidArgument, .invalidArgument, .invalidBinaryArgument,
          .invalidHandle] ∧
      (∀ request ∈ refusedRequests, ((s.run requests).2.perform request).2 = (s.run requests).2) ∧
      ∀ call ∈ refusedCalls, (call.run shared).2 = shared := by
  intro s name badName requests shared lamp refusedRequests refusedCalls
  have hs : Store.ofLimit (some 1) = .ok s := rfl
  have hshared : shared.Reached := .call (.call (.start hs) _) _
  obtain ⟨hstore, hcalls⟩ := failures_leave_no_trace hs requests hshared
  have hrefused : ∀ request ∈ refusedRequests,
      Status.ofResult ((s.run requests).2.perform request).1 ≠ .ok := by decide +kernel
  have hfailed : ∀ call ∈ refusedCalls, (call.run shared).1.status ≠ .ok := by decide +kernel
  refine ⟨⟨hstore, hcalls⟩, by decide +kernel, by decide +kernel, by decide +kernel,
    by decide +kernel, fun request hrequest => ?_, fun call hcall => ?_⟩
  · cases hperform : ((s.run requests).2.perform request).1 with
    | ok a =>
      have hstatus := hrefused request hrequest
      rw [hperform] at hstatus
      exact absurd rfl hstatus
    | error error => exact hstore.unchanged request error hperform
  · exact hcalls.unchanged call (hfailed call hcall)

end Parcel
