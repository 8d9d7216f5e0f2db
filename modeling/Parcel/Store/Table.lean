import Parcel.Handle

/-!
# Tables of objects by handle

A handle is the number of a slot with the slot's generation. Generations start at one and go up when
the slot is emptied, so a handle that has been removed never comes to life again; a slot that has
used up its generations is not used any more.

## Main definitions

* `Table`: slots, the free ones among them, and the number of objects
* `Table.insert`, `Table.remove`: giving out a handle, and taking one back
* `Table.insertInPlace`, `Table.removeInPlace`: the same, write by write
* `Table.get?`, `Table.update`: the object of a handle
* `Table.entries`: the live handles with their objects
-/

namespace Parcel

/-- A place for an object. -/
structure Slot (α : Type) where
  generation : UInt32
  content : Option α

/-- Objects in numbered slots. -/
structure Table (α : Type) where
  slots : Array (Slot α)
  /-- Empty slots that can be used again; the first is used next. -/
  free : List Nat
  /-- The number of objects. -/
  live : Nat

namespace Table

variable {α : Type}

/-- No slots. -/
def empty : Table α := ⟨#[], [], 0⟩

instance : Inhabited (Table α) := ⟨empty⟩

/-- The generation of a slot that is used for the first time. -/
def firstGeneration : UInt32 := 1

/-- How many slots there can be. -/
def slotBound : Nat := UInt32.size

/-- The handle of a slot at a generation. -/
def handle (index : Nat) (generation : UInt32) : Handle :=
  UInt64.ofNat (index * slotBound + generation.toNat)

/-- The slot that a handle names. -/
def index (h : Handle) : Nat :=
  h.toNat / slotBound

/-- The generation that a handle names. -/
def generation (h : Handle) : UInt32 :=
  UInt32.ofNat (h.toNat % slotBound)

/-- The slot of a handle, if it is still at the handle's generation. -/
def slot? (t : Table α) (h : Handle) : Option (Slot α) :=
  t.slots[index h]?.filter fun slot => slot.generation = generation h

/-- The object of a handle. -/
def get? (t : Table α) (h : Handle) : Option α :=
  (t.slot? h).bind Slot.content

/-- The table with a new object, and its handle: in the slot that was emptied last, or in a new one
if there is room for it. -/
def insert (t : Table α) (object : α) : Option (Handle × Table α) :=
  match t.free with
  | i :: free =>
    match t.slots[i]? with
    | some slot =>
      some (handle i slot.generation,
        { slots := t.slots.setIfInBounds i { slot with content := some object }
          free := free
          live := t.live + 1 })
    | none => none
  | [] =>
    if t.slots.size < slotBound then
      some (handle t.slots.size firstGeneration,
        { slots := t.slots.push ⟨firstGeneration, some object⟩
          free := []
          live := t.live + 1 })
    else none

/-- The table with another object in the place of a handle's, if the handle is live. -/
def update (t : Table α) (h : Handle) (object : α) : Table α :=
  match t.get? h with
  | some _ => { t with slots := t.slots.setIfInBounds (index h) ⟨generation h, some object⟩ }
  | none => t

/-- The table without the object of a handle, and the object. -/
def remove (t : Table α) (h : Handle) : Option (α × Table α) :=
  match t.slot? h with
  | none => none
  | some slot =>
    match slot.content with
    | none => none
    | some object =>
      let next := slot.generation + 1
      some (object,
        { slots := t.slots.setIfInBounds (index h) ⟨next, none⟩
          free := if next = 0 then t.free else index h :: t.free
          live := t.live - 1 })

/-- The writes that give out a handle for an object. What is written stays written, whatever comes
of it. There is a slot for every number of a free one. -/
def insertInPlace (object : α) : StateM (Table α) (Option Handle) := do
  let t ← get
  match t.free with
  | i :: free =>
    match t.slots[i]? with
    | some slot =>
      modify fun t => { t with free := free }
      modify fun t =>
        { t with slots := t.slots.setIfInBounds i { slot with content := some object } }
      modify fun t => { t with live := t.live + 1 }
      return some (handle i slot.generation)
    | none => return none
  | [] =>
    if t.slots.size < slotBound then
      modify fun t => { t with slots := t.slots.push ⟨firstGeneration, some object⟩ }
      modify fun t => { t with live := t.live + 1 }
      return some (handle t.slots.size firstGeneration)
    else return none

/-- The writes that take a handle back, and the object that was found under it. -/
def removeInPlace (h : Handle) : StateM (Table α) (Option α) := do
  match (← get).slot? h with
  | none => return none
  | some slot =>
    -- the slot is emptied first, and then it turns out whether there was an object
    modify fun t =>
      { t with slots := t.slots.setIfInBounds (index h) { slot with content := none } }
    match slot.content with
    | none => return none
    | some object =>
      let next := slot.generation + 1
      modify fun t => { t with slots := t.slots.setIfInBounds (index h) ⟨next, none⟩ }
      if next ≠ 0 then
        modify fun t => { t with free := index h :: t.free }
      modify fun t => { t with live := t.live - 1 }
      return some object

/-- The live handles with their objects, in the order of their slots. -/
def entries (t : Table α) : List (Handle × α) :=
  t.slots.toList.zipIdx.filterMap fun (slot, i) =>
    slot.content.map fun object => (handle i slot.generation, object)

@[simp] theorem get?_empty (h : Handle) : (empty : Table α).get? h = none := by
  simp [get?, slot?, empty]

@[simp] theorem entries_empty : (empty : Table α).entries = [] := rfl

end Table

end Parcel
