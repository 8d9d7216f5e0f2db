import Parcel.Proofs.Exchange.Session
import Parcel.Proofs.Table.Lookup
import Parcel.Store

/-!
# Requests in place

What the steps of a request have written is not taken back if a later step fails. But when they
first write they have checked all that they check, or what they write has no effect before the last
check. So they come to a function of the store: it gives the store that the request leads to, or the
error of a request that leaves the store alone.

## Main definitions

* `Store.insert`, `Store.insertCommand`, `Store.delete`: handles given out and taken back
* `Store.clear`, `Store.setMetadata`, `Store.push`, `Store.setNames`: changes of an object
* `Store.answered`, `Store.changed`: what a request comes to, from the store that it leads to or
  from its error

## Main results

* `perform_allocateData`, `perform_allocateCommand`, `perform_delete`: the steps on the table
* `perform_clear`, `perform_setMetadata`, `perform_push`, `perform_setNames`: the steps on an object
* `perform_kind`, `perform_metadata`, `perform_arg`, `perform_argCount`, `perform_names`: the steps
  of a request that only looks
-/

namespace Parcel.Store

open Table Session

variable {s s' : Store} {h k : Handle} {object : StoredObject} {interface operation : String}

/-! ## Objects -/

theorem object_eq_ok_iff : s.object h = .ok object ↔ s.objects.get? h = some object := by
  rw [Store.object]
  split <;> simp_all

theorem object_withObject (s : Store) (h k : Handle) (object : StoredObject) :
    (s.withObject h object).object k =
      if k = h then (s.object h).map fun _ => object else s.object k := by
  simp only [Store.object, withObject, get?_update]
  by_cases hk : k = h
  · subst hk
    cases s.objects.get? k <;> simp [Except.map]
  · simp [hk]

theorem withObject_withObject (s : Store) (h : Handle) (x y : StoredObject) :
    (s.withObject h x).withObject h y = s.withObject h y := by
  simp only [withObject, update_update]

theorem checkNames_eq_ok_iff :
    checkNames interface operation = .ok () ↔
      isIdentifier interface = true ∧ isIdentifier operation = true := by
  cases hi : isIdentifier interface <;> cases ho : isIdentifier operation <;>
    simp [checkNames, Identifier.validate, hi, ho]

theorem checkRoom_of_none (hlimit : s.limit = none) : s.checkRoom = .ok () := by
  rw [checkRoom, hlimit]
  rfl

theorem checkRoom_of_some {limit : Nat} (hlimit : s.limit = some limit) :
    s.checkRoom = if limit ≤ s.size then
      .error (.allocationFailed ("live handle limit of " ++ toString limit ++ " reached"))
    else .ok () := by
  rw [checkRoom, hlimit, Option.filter_some]
  by_cases hfull : limit ≤ s.size
  · simp only [hfull, decide_true, if_true]
  · simp only [hfull, decide_false, if_false, Bool.false_eq_true]

/-! ## Where requests lead to -/

/-- A new handle for an object, if the bound leaves room for it. -/
def insert (s : Store) (object : StoredObject) : Except Error (Handle × Store) :=
  match s.checkRoom with
  | .error error => .error error
  | .ok () =>
    match s.objects.insert object with
    | some (h, objects) => .ok (h, { s with objects := objects })
    | none => .error (.allocationFailed "handle slot space exhausted")

/-- If the bound leaves room, the slots decide. -/
theorem insert_of_checkRoom (hroom : s.checkRoom = .ok ()) :
    s.insert object = match s.objects.insert object with
      | some (h, objects) => .ok (h, { s with objects := objects })
      | none => .error (.allocationFailed "handle slot space exhausted") := by
  rw [insert, hroom]

/-- A new handle for a command. -/
def insertCommand (s : Store) (interface operation : String) : Except Error (Handle × Store) :=
  match checkNames interface operation with
  | .error error => .error error
  | .ok () => s.insert (.empty (some (interface, operation)))

/-- The store without a handle. -/
def delete (s : Store) (h : Handle) : Except Error Store :=
  match s.objects.remove h with
  | some (_, objects) => .ok { s with objects := objects }
  | none => .error (.handleNotFound h)

/-- The store with an object's payload made empty. -/
def clear (s : Store) (h : Handle) : Except Error Store :=
  (s.object h).map fun object => s.withObject h (.empty object.names)

/-- The store with other metadata under a handle, which has to decode. -/
def setMetadata (s : Store) (h : Handle) (blob : Bytes) : Except Error Store :=
  match s.object h with
  | .error error => .error error
  | .ok object =>
    match Entries.decode blob with
    | .error error => .error error
    | .ok _ => .ok (s.withObject h { object with metadata := blob })

/-- The store with one more argument under a handle. -/
def push (s : Store) (h : Handle) (arg : Bytes) : Except Error Store :=
  (s.object h).map fun object => s.withObject h { object with args := object.args ++ [arg] }

/-- The store with other names under the handle of a command. The names are checked before the
handle. -/
def setNames (s : Store) (h : Handle) (interface operation : String) : Except Error Store :=
  match checkNames interface operation with
  | .error error => .error error
  | .ok () =>
    match s.object h with
    | .error error => .error error
    | .ok object =>
      match object.names with
      | some _ => .ok (s.withObject h { object with names := some (interface, operation) })
      | none => .error (.handleMismatch h .command)

/-- The outcome of a request that gives an answer and a new state, or fails. -/
def answered {α : Type} (s : Store) : Except Error (α × Store) → Except Error α × Store
  | .ok (answer, changed) => (.ok answer, changed)
  | .error error => (.error error, s)

/-- The outcome of a request that gives a new state only, or fails. -/
def changed (s : Store) : Except Error Store → Except Error Unit × Store
  | .ok changed => (.ok (), changed)
  | .error error => (.error error, s)

/-! ## Handles given out and taken back -/

/-- A step on the table leaves the bound alone, and does not fail. -/
theorem outcome_onObjects {α : Type} (step : StateM (Table StoredObject) α) (s : Store) :
    (onObjects step).outcome s =
      (.ok (step.run s.objects).1, { s with objects := (step.run s.objects).2 }) := rfl

/-- **The steps that give out a handle** fill the room that they have made sure of. -/
theorem outcome_allocate (s : Store) (object : StoredObject) :
    (allocate object).outcome s = s.answered (s.insert object) := by
  rw [allocate, outcome_bind, outcome_look, insert]
  cases s.checkRoom with
  | error error => rfl
  | ok =>
    dsimp only
    rw [outcome_bind_of_ok (outcome_onObjects _ s), run_insertInPlace]
    -- a table without a free slot has not been written to
    cases s.objects.insert object <;> rfl

theorem perform_allocateData (s : Store) :
    s.perform .allocateData = s.answered (s.insert (.empty none)) :=
  outcome_allocate s _

theorem perform_allocateCommand (s : Store) (interface operation : String) :
    s.perform (.allocateCommand interface operation) =
      s.answered (s.insertCommand interface operation) := by
  rw [perform, inPlace, outcome_bind, outcome_ofExcept, insertCommand]
  cases checkNames interface operation with
  | error error => rfl
  | ok => exact outcome_allocate s _

theorem perform_delete (s : Store) (h : Handle) :
    s.perform (.delete h) = s.changed (s.delete h) := by
  rw [perform, inPlace, outcome_bind_of_ok (outcome_onObjects _ s), run_removeInPlace, delete]
  cases s.objects.remove h <;> rfl

/-! ## Changes of an object -/

/-- A write to an object that has been found. -/
theorem outcome_writeObject (hobject : s.object h = .ok object)
    (change : StoredObject → StoredObject) :
    (writeObject h change).outcome s = (.ok (), s.withObject h (change object)) := by
  rw [writeObject, outcome_write, hobject]

/-- Two writes to an object that has been found. -/
theorem outcome_writeObject_twice (hobject : s.object h = .ok object)
    (first second : StoredObject → StoredObject) :
    (do writeObject h first; writeObject h second : Session Store Unit).outcome s =
      (.ok (), s.withObject h (second (first object))) := by
  have hbetween : (s.withObject h (first object)).object h = .ok (first object) := by
    rw [object_withObject, if_pos rfl, hobject]
    rfl
  rw [outcome_bind_of_ok (outcome_writeObject hobject first), outcome_writeObject hbetween,
    withObject_withObject]

theorem perform_clear (s : Store) (h : Handle) : s.perform (.clear h) = s.changed (s.clear h) := by
  rw [perform, inPlace, outcome_bind, outcome_look, clear]
  cases hobject : s.object h with
  | error error => rfl
  | ok object => exact outcome_writeObject_twice hobject _ _

theorem perform_setMetadata (s : Store) (h : Handle) (blob : Bytes) :
    s.perform (.setMetadata h blob) = s.changed (s.setMetadata h blob) := by
  rw [perform, inPlace, outcome_bind, outcome_look, setMetadata]
  cases hobject : s.object h with
  | error error => rfl
  | ok object =>
    dsimp only
    rw [outcome_bind, outcome_ofExcept]
    cases Entries.decode blob with
    | error error => rfl
    | ok m => exact outcome_writeObject hobject _

theorem perform_push (s : Store) (h : Handle) (arg : Bytes) :
    s.perform (.push h arg) = s.changed (s.push h arg) := by
  rw [perform, inPlace, outcome_bind, outcome_look, push]
  cases hobject : s.object h with
  | error error => rfl
  | ok object => exact outcome_writeObject hobject _

theorem perform_setNames (s : Store) (h : Handle) (interface operation : String) :
    s.perform (.setNames h interface operation) =
      s.changed (s.setNames h interface operation) := by
  rw [perform, inPlace, outcome_bind, outcome_ofExcept, setNames]
  cases checkNames interface operation with
  | error error => rfl
  | ok =>
    dsimp only
    rw [outcome_bind, outcome_look, names]
    cases hobject : s.object h with
    | error error => rfl
    | ok object =>
      dsimp only
      cases object.names with
      | none => rfl
      | some old => exact outcome_writeObject_twice hobject _ _

/-! ## Requests that only look -/

theorem perform_kind (s : Store) (h : Handle) :
    s.perform (.kind h) = ((s.object h).map StoredObject.kind, s) := rfl

theorem perform_metadata (s : Store) (h : Handle) (capacity : Nat) :
    s.perform (.metadata h capacity) =
      ((s.object h).map fun object => Reading.ofItem object.metadata capacity, s) := rfl

theorem perform_arg (s : Store) (h : Handle) (index capacity : Nat) :
    s.perform (.arg h index capacity) =
      ((s.object h).map fun object =>
        object.args[index]?.map fun arg => Reading.ofItem arg capacity, s) := rfl

theorem perform_argCount (s : Store) (h : Handle) :
    s.perform (.argCount h) = ((s.object h).map fun object => object.args.length, s) := rfl

theorem perform_names (s : Store) (h : Handle) : s.perform (.names h) = (s.names h, s) := rfl

end Parcel.Store
