import Parcel.Proofs.Exchange.Requests
import Parcel.Proofs.Store.Capacity

/-!
# The bound on live handles is exact

A store with a bound never has more live handles than that, and as long as there are slots it
refuses a new object only if it has as many. This comes from the books that a store keeps: each
request adds to the count what it gives out and takes off what it takes back, so that nothing else
uses up room and every handle that is taken back makes room for one more.

## Main definitions

* `Store.released`: the handles that requests take back
* `Store.Leads`: the stores that requests and transfers lead to
* `Store.HasSlot`: stores with a slot for one more object
* `Store.KeepsLimit`: what a bound promises

## Main results

* `Transition.size_balance`, `size_run_balance`: what a request and a run do to the count
* `Transition.size_le`, `size_run_le`: a request and a run stay within the bound
* `exists_insert_iff`: when there is room for an object
* `limit_is_exact`: the promise is kept in every store with a bound
-/

namespace Parcel.Store

open Table

variable {s s' s₀ : Store} {h : Handle} {object : StoredObject} {max : Nat} {request : Request}
  {reply : Except Error request.Reply}

/-! ## The count of live handles -/

theorem size_insert (hi : s.insert object = .ok (h, s')) : s'.size = s.size + 1 := by
  obtain ⟨objects, hinsert, rfl⟩ := insert_eq_ok hi
  rw [Table.insert] at hinsert
  split at hinsert
  · split at hinsert
    · cases hinsert
      rfl
    · contradiction
  · split at hinsert
    · cases hinsert
      rfl
    · contradiction

/-- An object is stored only if the bound leaves room for it. -/
theorem size_lt_of_insert (hlimit : s.limit = some max) (hi : s.insert object = .ok (h, s')) :
    s.size < max := by
  rw [Store.insert, checkRoom_of_some hlimit] at hi
  by_contra hfull
  rw [if_pos (Nat.le_of_not_lt hfull)] at hi
  contradiction

theorem size_withObject (s : Store) (h : Handle) (object : StoredObject) :
    (s.withObject h object).size = s.size := by
  rw [withObject, size, Table.update]
  split <;> rfl

theorem size_delete (hd : s.delete h = .ok s') : s'.size = s.size - 1 := by
  obtain ⟨old, objects, hremove, rfl⟩ := delete_eq_ok hd
  obtain ⟨-, rfl⟩ := remove_cases hremove
  rfl

/-- A store whose handle is deleted had one. -/
theorem size_pos_of_delete (hs : s.objects.WellFormed) (hsize : s.size = s.liveHandles.length)
    (hd : s.delete h = .ok s') : 0 < s.size := by
  obtain ⟨old, objects, hremove, rfl⟩ := delete_eq_ok hd
  obtain ⟨hlive, -⟩ := get?_remove hremove
  rw [hsize]
  exact List.length_pos_of_mem ((mem_liveHandles hs).2 ⟨old, object_eq_ok_iff.2 hlive⟩)

/-- **The books of a store**: a request adds to the count what it gives out, and takes off what it
takes back. -/
theorem Transition.size_balance (hs : s.objects.WellFormed) (hsize : s.size = s.liveHandles.length)
    (ht : Transition s request reply s') :
    s'.size + (request.release reply).toList.length =
      s.size + (request.allotment reply).toList.length := by
  cases ht with
  | failed error => rw [request.release_error, request.allotment_error]; rfl
  | read hissued hreleased => rw [hissued, hreleased]; rfl
  | issued hobject hinsert hissued hreleased =>
    rw [hissued, hreleased, size_insert hinsert]
    rfl
  | edited hedit hrequest hissued hreleased =>
    obtain ⟨hlive, hkind, hreadable⟩ := hedit
    rw [hissued, hreleased, size_withObject]
    rfl
  | released hdelete hrequest hissued hreleased =>
    -- the count does not stop at zero, since the handle was live
    have hpos := size_pos_of_delete hs hsize hdelete
    rw [hissued, hreleased, size_delete hdelete]
    simp only [Option.toList_some, Option.toList_none, List.length_singleton, List.length_nil]
    omega

/-- The handles that requests take back, in order. -/
def released (s : Store) : List Request → List Handle
  | [] => []
  | request :: rest =>
    let (reply, changed) := s.perform request
    (request.release reply).toList ++ released changed rest

/-- **The books of a run**: the live handles are those of before and those given out, less those
taken back. -/
theorem size_run_balance {limit : Option Nat} (hs : ofLimit limit = .ok s₀) {first : List Request}
    (hfirst : s = (s₀.run first).2) (requests : List Request) :
    (s.run requests).2.size + (s.released requests).length =
      s.size + (s.run requests).1.length := by
  -- what came first grows by each request, so that its live handles are known to be counted right
  induction requests generalizing s first with
  | nil => rfl
  | cons request rest ih =>
    have hwf := (sound_run hs first).advance.wellFormed
    have hsize := size_eq_length_liveHandles hs first
    rw [← hfirst] at hwf hsize
    have hbalance := (transition_perform s request).size_balance hwf hsize
    have hnext : (s.perform request).2 = (s₀.run (first ++ [request])).2 := by
      rw [run_append, ← hfirst]
      rfl
    have hrest := ih hnext
    simp only [run, released, List.length_append]
    omega

/-! ## The bound -/

theorem limit_ofLimit {limit : Option Nat} (hs : ofLimit limit = .ok s) : s.limit = limit := by
  unfold ofLimit at hs
  split at hs
  · contradiction
  · cases hs
    rfl

/-- No request changes the bound. -/
theorem Transition.limit_eq (ht : Transition s request reply s') : s'.limit = s.limit := by
  cases ht with
  | failed error => rfl
  | read => rfl
  | issued hobject hinsert =>
    obtain ⟨objects, -, rfl⟩ := insert_eq_ok hinsert
    rfl
  | edited hedit =>
    obtain ⟨hlive, hkind, hreadable⟩ := hedit
    rfl
  | released hdelete =>
    obtain ⟨old, objects, -, rfl⟩ := delete_eq_ok hdelete
    rfl

/-- **A request keeps the bound.** -/
theorem Transition.size_le (hlimit : s.limit = some max) (hle : s.size ≤ max)
    (ht : Transition s request reply s') : s'.size ≤ max := by
  cases ht with
  | failed error => exact hle
  | read => exact hle
  | issued hobject hinsert =>
    -- the bound was checked before the object was stored
    have hlt := size_lt_of_insert hlimit hinsert
    rw [size_insert hinsert]
    exact hlt
  | edited hedit =>
    obtain ⟨hlive, hkind, hreadable⟩ := hedit
    rwa [size_withObject]
  | released hdelete =>
    rw [size_delete hdelete]
    omega

/-- **A run keeps the bound.** -/
theorem size_run_le (hlimit : s.limit = some max) (hle : s.size ≤ max) (requests : List Request) :
    (s.run requests).2.limit = some max ∧ (s.run requests).2.size ≤ max := by
  -- the bound itself stays the same, so that it applies to each request
  induction requests generalizing s with
  | nil => exact ⟨hlimit, hle⟩
  | cons request rest ih =>
    have ht := transition_perform s request
    exact ih (ht.limit_eq.trans hlimit) (ht.size_le hlimit hle)

/-! ## Room for an object -/

/-- **Stores with a slot for one more object**: one that waits to be used again, or a new one. -/
def HasSlot (s : Store) : Prop :=
  s.objects.free ≠ [] ∨ s.objects.slots.size < slotBound

/-- **An object finds room** exactly if the bound leaves it, as long as there is a slot. -/
theorem exists_insert_iff (hs : s.objects.WellFormed) (hsize : s.size = s.liveHandles.length)
    (hlimit : s.limit = some max) (hslot : s.HasSlot) (object : StoredObject) :
    (∃ found, s.insert object = .ok found) ↔ s.liveHandles.length < max := by
  constructor
  · rintro ⟨⟨h, s'⟩, hi⟩
    rw [← hsize]
    exact size_lt_of_insert hlimit hi
  · intro hroom
    cases hi : s.insert object with
    | ok found => exact ⟨found, rfl⟩
    | error error =>
      -- a store that refuses an object is full, which it is in neither way
      rcases (insert_eq_error_iff hs hsize).1 hi with ⟨hlimit', hfull⟩ | ⟨-, hfree, hslots⟩
      · cases hlimit.symm.trans hlimit'
        omega
      · rcases hslot with hwaiting | hnew
        · exact absurd hfree hwaiting
        · omega

theorem exists_answered_iff {α : Type} {result : Except Error (α × Store)} :
    (∃ a, (s.answered result).1 = .ok a) ↔ ∃ found, result = .ok found := by
  cases result with
  | error error => simp [answered]
  | ok found => simp [answered]

/-! ## Stores with a history -/

/-- **The stores that requests and transfers lead to.** A transfer writes an object under a handle,
or under a new one. -/
inductive Leads (s₀ : Store) : Store → Prop
  | start : Leads s₀ s₀
  | request {s : Store} (h : Leads s₀ s) (request : Request) : Leads s₀ (s.perform request).2
  | put {s : Store} (h : Leads s₀ s) (o : Object) (target : Option Handle) :
      Leads s₀ ((o.put target : Session Store Handle).outcome s).2

/-- A transfer makes requests, so that requests are all that leads to a store. -/
theorem Leads.exists_run (h : s₀.Leads s) : ∃ requests, s = (s₀.run requests).2 := by
  -- each step adds its requests at the end
  induction h with
  | start => exact ⟨[], rfl⟩
  | request h request ih =>
    obtain ⟨requests, rfl⟩ := ih
    refine ⟨requests ++ [request], ?_⟩
    rw [run_append]
    rfl
  | put h o target ih =>
    obtain ⟨requests, rfl⟩ := ih
    obtain ⟨made, hmade⟩ := o.makesRequests_put target (s₀.run requests).2
    refine ⟨requests ++ made, ?_⟩
    rw [hmade, run_append]

/-- **What a bound promises.** -/
structure KeepsLimit (max : Nat) (s : Store) : Prop where
  bounded : s.liveHandles.length ≤ max
  /-- As long as there is a slot, a data object finds room exactly if there are fewer live
  handles. -/
  data : s.HasSlot →
    ((∃ h, (s.perform .allocateData).1 = .ok h) ↔ s.liveHandles.length < max)
  /-- And so does a command with names that are identifiers. -/
  command : s.HasSlot → ∀ interface operation, isIdentifier interface = true →
    isIdentifier operation = true →
      ((∃ h, (s.perform (.allocateCommand interface operation)).1 = .ok h) ↔
        s.liveHandles.length < max)
  /-- Requests make room for as many objects as they take back handles, and use up room for as many
  as they give out. -/
  balance : ∀ requests : List Request,
    (s.run requests).2.liveHandles.length + (s.released requests).length =
      s.liveHandles.length + (s.run requests).1.length

/-- **The bound is exact** in every store that requests and transfers lead to. -/
theorem limit_is_exact (hs : ofLimit (some max) = .ok s₀) (hleads : s₀.Leads s) :
    s.KeepsLimit max := by
  -- all that is used of the history is that the count is right and within the bound
  obtain ⟨requests, rfl⟩ := hleads.exists_run
  have hwf := (sound_run hs requests).advance.wellFormed
  have hsize := size_eq_length_liveHandles hs requests
  have hempty : s₀.size ≤ max := by simp [size, objects_ofLimit hs, Table.empty]
  obtain ⟨hlimit, hle⟩ := size_run_le (limit_ofLimit hs) hempty requests
  refine ⟨hsize ▸ hle, ?_, ?_, ?_⟩
  · intro hslot
    rw [perform_allocateData, exists_answered_iff]
    exact exists_insert_iff hwf hsize hlimit hslot _
  · intro hslot interface operation hinterface hoperation
    have hcheck := checkNames_eq_ok_iff.2 ⟨hinterface, hoperation⟩
    rw [perform_allocateCommand, exists_answered_iff, insertCommand, hcheck]
    exact exists_insert_iff hwf hsize hlimit hslot _
  · intro later
    have hlater := size_eq_length_liveHandles hs (requests ++ later)
    rw [run_append] at hlater
    rw [← hlater, ← hsize]
    exact size_run_balance hs rfl later

/-- A store with room for one object refuses a second one until the first is deleted. -/
theorem limit_is_exact_one :
    let s₀ : Store := { empty with limit := some 1 }
    let full := (s₀.perform .allocateData).2
    let freed := (full.perform (.delete 1)).2
    (¬ ∃ h, (full.perform .allocateData).1 = .ok h) ∧
      ∃ h, (freed.perform .allocateData).1 = .ok h := by
  intro s₀ full freed
  have hs : ofLimit (some 1) = .ok s₀ := rfl
  have hfull : s₀.Leads full := .request .start .allocateData
  have hfreed : s₀.Leads freed := .request hfull (.delete 1)
  -- in both stores there is one slot, and many more are left
  constructor
  · rw [(limit_is_exact hs hfull).data (.inr (by decide))]
    decide
  · rw [(limit_is_exact hs hfreed).data (.inr (by decide))]
    decide

end Parcel.Store
