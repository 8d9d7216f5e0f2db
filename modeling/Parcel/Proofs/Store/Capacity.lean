import Parcel.Proofs.Store.History
import Parcel.Proofs.Table.FiniteMap

/-!
# The room of a store

A store gives out no handle beyond its bound, and none when every slot exists and no slot can be
used again; a new object is refused for nothing else. The bound is compared with a count of the live
handles. The count is right, because all that requests do to the objects of a store are operations
of a table.

## Main definitions

* `Store.Full`: stores without room for an object, with the error that says why

## Main results

* `exists_operations`: the objects after a run of requests are those of a table after a run
* `size_eq_length_liveHandles`: the live handles are counted right
* `insert_eq_error_iff`: a new object is refused exactly by a full store
-/

namespace Parcel

open Table

namespace Table

variable {α : Type}

/-- A run goes on from where an earlier one ended. -/
theorem run_append (t : Table α) (first later : List (Operation α)) :
    (t.run (first ++ later)).2 = ((t.run first).2.run later).2 := by
  induction first generalizing t with
  | nil => rfl
  | cons operation rest ih => exact ih (t.apply operation).2

end Table

namespace Store

variable {s s' : Store} {object : StoredObject} {error : Error}

/-! ## Requests as operations of a table -/

/-- **A step** does at most one operation to the objects. -/
theorem Step.exists_operations {issued : Option (Handle × Kind)} (hstep : Step s issued s') :
    ∃ operations : List (Operation StoredObject), s'.objects = (s.objects.run operations).2 := by
  cases hstep with
  | unchanged => exact ⟨[], rfl⟩
  | @allotted object _ _ _ hinsert => exact ⟨[.insert object], by simp [Table.run, apply, hinsert]⟩
  | @replaced h _ new _ _ _ => exact ⟨[.update h new], rfl⟩
  | @deleted h _ _ hremove => exact ⟨[.remove h], by simp [Table.run, apply, hremove]⟩

/-- **A run of requests** does a run of operations to the objects. -/
theorem exists_operations (s : Store) (requests : List Request) :
    ∃ operations : List (Operation StoredObject),
      (s.run requests).2.objects = (s.objects.run operations).2 := by
  -- the operations of the first request are followed by those of the others
  induction requests generalizing s with
  | nil => exact ⟨[], rfl⟩
  | cons request rest ih =>
    obtain ⟨first, hfirst⟩ := (step_perform s request).exists_operations
    obtain ⟨later, hlater⟩ := ih (s.perform request).2
    refine ⟨first ++ later, ?_⟩
    rw [Table.run_append, ← hfirst]
    exact hlater

/-- **The live handles are counted right** after every run. -/
theorem size_eq_length_liveHandles {limit : Option Nat} (hs : ofLimit limit = .ok s)
    (requests : List Request) :
    (s.run requests).2.size = (s.run requests).2.liveHandles.length := by
  obtain ⟨operations, hobjects⟩ := exists_operations s requests
  rw [objects_ofLimit hs] at hobjects
  rw [size, liveHandles, List.length_map, hobjects]
  exact (run_holds .empty holds_empty operations).live_eq_length

/-! ## Full stores -/

/-- **Full stores**, with the error that a new object is refused with. -/
inductive Full (s : Store) : Error → Prop
  /-- As many handles are live as the bound allows. -/
  | bound {limit : Nat} (hlimit : s.limit = some limit) (hfull : limit ≤ s.liveHandles.length) :
      Full s (.allocationFailed ("live handle limit of " ++ toString limit ++ " reached"))
  /-- The bound leaves room, but every slot exists and none waits to be used again. -/
  | slots (hroom : ∀ limit, s.limit = some limit → s.liveHandles.length < limit)
      (hfree : s.objects.free = []) (hslots : s.objects.slots.size = slotBound) :
      Full s (.allocationFailed "handle slot space exhausted")

/-- A store without a bound has room as long as not all slots exist. -/
theorem not_full_of_lt (hlimit : s.limit = none) (hslots : s.objects.slots.size < slotBound) :
    ∀ error, ¬ s.Full error := by
  rintro error (⟨hbound, -⟩ | ⟨-, -, hall⟩)
  · rw [hlimit] at hbound
    contradiction
  · omega

theorem checkRoom_eq_error_iff (hsize : s.size = s.liveHandles.length) :
    s.checkRoom = .error error ↔
      ∃ limit, s.limit = some limit ∧ limit ≤ s.liveHandles.length ∧
        error = .allocationFailed ("live handle limit of " ++ toString limit ++ " reached") := by
  cases hlimit : s.limit with
  | none => simp [checkRoom_of_none hlimit]
  | some limit =>
    rw [checkRoom_of_some hlimit, hsize]
    split <;> simp_all [eq_comm]

theorem checkRoom_eq_ok_iff (hsize : s.size = s.liveHandles.length) :
    s.checkRoom = .ok () ↔ ∀ limit, s.limit = some limit → s.liveHandles.length < limit := by
  cases hlimit : s.limit with
  | none => simp [checkRoom_of_none hlimit]
  | some limit =>
    rw [checkRoom_of_some hlimit, hsize]
    split <;> simp_all

/-- **A new object is refused** exactly by a full store. -/
theorem insert_eq_error_iff (hs : s.objects.WellFormed) (hsize : s.size = s.liveHandles.length) :
    s.insert object = .error error ↔ s.Full error := by
  constructor
  · intro hi
    rw [Store.insert] at hi
    -- the bound of the store is looked at before the slots are
    split at hi
    · next hroom =>
      obtain ⟨limit, hlimit, hfull, rfl⟩ := (checkRoom_eq_error_iff hsize).1 hroom
      cases hi
      exact .bound hlimit hfull
    · next hroom =>
      split at hi
      · contradiction
      · next hnone =>
        cases hi
        obtain ⟨hfree, hslots⟩ := (insert_eq_none_iff hs).1 hnone
        exact .slots ((checkRoom_eq_ok_iff hsize).1 hroom) hfree hslots
  · rintro (⟨hlimit, hfull⟩ | ⟨hroom, hfree, hslots⟩)
    · rw [Store.insert, (checkRoom_eq_error_iff hsize).2 ⟨_, hlimit, hfull, rfl⟩]
    · have hnone := (Table.insert_eq_none_iff (x := object) hs).2 ⟨hfree, hslots⟩
      rw [insert_of_checkRoom ((checkRoom_eq_ok_iff hsize).2 hroom), hnone]

end Store

end Parcel
