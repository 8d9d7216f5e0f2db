import Parcel.Exchange
import Parcel.Identifier
import Parcel.Metadata.Encoding
import Parcel.Store.Table

/-!
# The object store

A store keeps the objects of all handles in memory. Metadata is kept as the bytes it came in, which
have to decode; names are kept as texts, which have to be identifiers. A request takes a few steps
on the store, each of which looks something up, checks what came in, or writes. A step that fails
ends the request and leaves the store as the steps before it made it: nothing is taken back. What a
log would be told of handles given out, taken back and refused is left out, since no answer depends
on it.

## Main definitions

* `StoredObject`: what is kept under a handle
* `Store`, `Store.ofLimit`: a store, and one with a bound on its live handles
* `Store.inPlace`: the steps of a request
* `Store.perform`: the answer to a request
* `Store.dump`: an object as people read it
-/

namespace Parcel

/-- What is kept under a handle. -/
structure StoredObject where
  /-- The encoded metadata. -/
  metadata : Bytes
  args : List Bytes
  /-- Interface and operation of a command. -/
  names : Option (String × String)
deriving DecidableEq, Repr

namespace StoredObject

/-- An object without arguments and metadata. -/
def empty (names : Option (String × String)) : StoredObject :=
  ⟨emptyEncoding, [], names⟩

/-- Objects with names are commands. -/
def kind (object : StoredObject) : Kind :=
  if object.names.isSome then .command else .data

end StoredObject

/-- Objects by handle, with an optional bound on how many there can be. -/
structure Store where
  objects : Table StoredObject
  limit : Option Nat

namespace Store

open Session (look)

/-- A store without objects and without a bound. -/
def empty : Store := ⟨.empty, none⟩

instance : Inhabited Store := ⟨empty⟩

/-- A bound has to leave room for an object. -/
def checkLimit (limit : Option Nat) : Except ConfigError Unit :=
  if limit = some 0 then .error .zeroHandleLimit else .ok ()

/-- A store without objects that has a bound. -/
def ofLimit (limit : Option Nat) : Except ConfigError Store :=
  match checkLimit limit with
  | .error error => .error error
  | .ok () => .ok { empty with limit := limit }

theorem ofLimit_none : ofLimit none = .ok empty := rfl

/-- The number of live handles. -/
def size (s : Store) : Nat :=
  s.objects.live

/-- Whether there is no live handle. -/
def isEmpty (s : Store) : Bool :=
  s.size == 0

/-- The live handles in the order of their slots. -/
def liveHandles (s : Store) : List Handle :=
  s.objects.entries.map Prod.fst

/-- The object of a live handle. -/
def object (s : Store) (h : Handle) : Except Error StoredObject :=
  match s.objects.get? h with
  | some object => .ok object
  | none => .error (.handleNotFound h)

/-- The store with another object under a handle. -/
def withObject (s : Store) (h : Handle) (object : StoredObject) : Store :=
  { s with objects := s.objects.update h object }

/-- Names have to be identifiers; the interface is checked first. -/
def checkNames (interface operation : String) : Except Error Unit :=
  match Identifier.validate interface with
  | .error error => .error error
  | .ok () => Identifier.validate operation

/-- The names of a command. -/
def names (s : Store) (h : Handle) : Except Error (String × String) :=
  match s.object h with
  | .error error => .error error
  | .ok object =>
    match object.names with
    | some names => .ok names
    | none => .error (.handleMismatch h .command)

/-! ## Requests -/

/-- A step that writes to the object of a live handle. -/
def writeObject (h : Handle) (change : StoredObject → StoredObject) : Session Store Unit :=
  Session.write fun s =>
    match s.object h with
    | .ok object => s.withObject h (change object)
    | .error _ => s

/-- A step on the table of objects. -/
def onObjects {α : Type} (step : StateM (Table StoredObject) α) : Session Store α :=
  modifyGetThe Store fun s =>
    let (a, objects) := step.run s.objects
    (a, { s with objects := objects })

/-- There has to be room for one more object under the bound. -/
def checkRoom (s : Store) : Except Error Unit :=
  match s.limit.filter (· ≤ s.size) with
  | some limit =>
    .error (.allocationFailed ("live handle limit of " ++ toString limit ++ " reached"))
  | none => .ok ()

/-- The steps that give out a handle for a new object. -/
def allocate (object : StoredObject) : Session Store Handle := do
  look checkRoom
  match ← onObjects (Table.insertInPlace object) with
  | some h => return h
  | none => throw (.allocationFailed "handle slot space exhausted")

/-- The steps of a request. Names are checked before anything else, and new metadata only when the
object has been found. -/
def inPlace : (request : Request) → Session Store request.Reply
  | .allocateData => allocate (.empty none)
  | .allocateCommand interface operation => do
    Session.ofExcept (checkNames interface operation)
    allocate (.empty (some (interface, operation)))
  | .kind h => look fun s => (s.object h).map StoredObject.kind
  | .clear h => do
    let _ ← look (·.object h)
    writeObject h fun object => { object with metadata := emptyEncoding }
    writeObject h fun object => { object with args := [] }
  | .setMetadata h blob => do
    let _ ← look (·.object h)
    let _ ← Session.ofExcept (Entries.decode blob)
    writeObject h fun object => { object with metadata := blob }
  | .metadata h capacity =>
    look fun s => (s.object h).map fun object => Reading.ofItem object.metadata capacity
  | .push h arg => do
    let _ ← look (·.object h)
    writeObject h fun object => { object with args := object.args ++ [arg] }
  | .arg h index capacity =>
    look fun s => (s.object h).map fun object =>
      object.args[index]?.map fun arg => Reading.ofItem arg capacity
  | .argCount h => look fun s => (s.object h).map fun object => object.args.length
  | .setNames h interface operation => do
    Session.ofExcept (checkNames interface operation)
    let (_, oldOperation) ← look (·.names h)
    writeObject h fun object => { object with names := some (interface, oldOperation) }
    writeObject h fun object => { object with names := some (interface, operation) }
  | .names h => look (·.names h)
  | .delete h => do
    match ← onObjects (Table.removeInPlace h) with
    | some _ => return ()
    | none => throw (.handleNotFound h)

/-- The answer to a request, and the store afterwards. -/
def perform (request : Request) (s : Store) : Except Error request.Reply × Store :=
  (inPlace request).outcome s

/-- No handle has more arguments than its object. -/
def argLimit (h : Handle) (s : Store) : Nat :=
  match s.objects.get? h with
  | some object => object.args.length
  | none => 0

instance : Holder Store where
  perform := perform
  argLimit := argLimit

/-! ## Dumps -/

/-- A line for each argument, with its index. -/
def argLines (args : List Bytes) : String :=
  String.join (args.zipIdx.map fun (arg, index) =>
    "    [" ++ toString index ++ "] b'" ++ Quoted.bytes arg ++ "'\n")

/-- The lines for the names of a command. -/
def nameLines : Option (String × String) → String
  | some (interface, operation) => "  iface: " ++ interface ++ "\n  oper: " ++ operation ++ "\n"
  | none => ""

/-- An object as people read it. -/
def dump (s : Store) (h : Handle) : Except Error String :=
  match s.object h with
  | .error error => .error error
  | .ok object =>
    match Entries.decode object.metadata with
    | .error error => .error error
    | .ok metadata =>
      .ok (object.kind.name ++ " handle " ++ h.text ++ "\n"
        ++ nameLines object.names
        ++ "  metadata: " ++ Entries.toText metadata ++ "\n"
        ++ "  args: " ++ toString object.args.length ++ "\n"
        ++ argLines object.args)

end Store

end Parcel
