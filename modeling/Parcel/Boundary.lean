import Parcel.Boundary.Memory
import Parcel.Exchange.Transfer
import Parcel.Store

/-!
# The shared store behind the boundary

Callers outside work on one shared store through calls that take handles and pointers and answer
with a status. Pointers are checked first. If a caller dies while it holds the store, the store is
poisoned and every later call that needs it fails. Calls are answered one at a time, and none of
them dies itself, so there is never a last message of one that did.

## Main definitions

* `Shared`: the shared store
* `Call`, `Call.run`: a call, and its answer with the shared store afterwards
* `Shared.withStore`: a conversation with the store from inside
* `Shared.poison`: a caller that dies while it holds the store
-/

namespace Parcel

/-- A store that is shared by all callers. -/
structure Shared where
  store : Store
  /-- Whether a caller died while it held the store. -/
  poisoned : Bool

namespace Shared

/-- A shared store that nobody has used. -/
def ofStore (store : Store) : Shared := ⟨store, false⟩

/-- The wording of the failure to get hold of a poisoned store. -/
def poisonedMessage : String := "arb handle store lock is poisoned"

/-- A conversation with the store, unless it is poisoned. -/
def withStore {α : Type} (session : Session Store α) (shared : Shared) :
    Option (Except Error α) × Shared :=
  if shared.poisoned then (none, shared)
  else
    let (result, store) := session.outcome shared.store
    (some result, { shared with store := store })

/-- A caller dies while it holds the store; whether it got hold of it, and the store afterwards. -/
def poison (shared : Shared) : Bool × Shared :=
  (!shared.poisoned, { shared with poisoned := true })

end Shared

/-- A call across the boundary. A flag says whether there is a place for the result. -/
inductive Call
  | newData (hasPlace : Bool)
  | newCommand (interface operation : Option Bytes) (hasPlace : Bool)
  | delete (handle : Handle)
  | clear (handle : Handle)
  | kind (handle : Handle) (hasPlace : Bool)
  | argCount (handle : Handle) (hasPlace : Bool)
  | setEncoded (handle : Handle) (input : Memory)
  | setText (handle : Handle) (input : Option Bytes)
  | push (handle : Handle) (input : Memory)
  | getEncoded (handle : Handle) (target : Target)
  | getText (handle : Handle) (target : Target)
  | getArg (handle : Handle) (index : Nat) (target : Target)
  | getInterface (handle : Handle) (target : Target)
  | getOperation (handle : Handle) (target : Target)
  | dump (handle : Handle) (target : Target)

/-- The answer to a call: a status, with the result that was written to its place, if any. -/
inductive Answer
  | plain (status : Status)
  | handle (status : Status) (written : Option Handle)
  | kind (status : Status) (written : Option Kind)
  | number (status : Status) (written : Option Nat)
  | delivery (delivery : Delivery)
deriving DecidableEq, Repr

namespace Shared

/-- A result written to its place, if there is one. -/
def writeOut {α : Type} (hasPlace : Bool) (result : α) : Status × Option α :=
  if hasPlace then (.ok, some result) else (.invalidArgument, none)

/-- A request whose answer goes to its place. The place is checked before the store is needed, and
once more when the answer is written. -/
def request {α : Type} (shared : Shared) (hasPlace : Bool) (session : Session Store α) :
    (Status × Option α) × Shared :=
  if !hasPlace then ((.invalidArgument, none), shared)
  else
    match shared.withStore session with
    | (none, shared) => ((.internalError, none), shared)
    | (some (.ok answer), shared) => (writeOut hasPlace answer, shared)
    | (some (.error error), shared) => ((.ofError error, none), shared)

/-- A request without an answer. -/
def command (shared : Shared) (session : Session Store Unit) : Answer × Shared :=
  let ((status, _), shared) := shared.request true session
  (.plain status, shared)

/-- An item looked up in the store and delivered; failures to find it come first, and then nothing
is written. -/
def deliver {α : Type} (shared : Shared) (target : Target) (item : Store → Except Error α)
    (delivery : α → Delivery) : Answer × Shared :=
  if shared.poisoned then (.delivery (target.refuse .internalError), shared)
  else
    match item shared.store with
    | .error error => (.delivery (target.refuse (.ofError error)), shared)
    | .ok found => (.delivery (delivery found), shared)

end Shared

namespace Call

/-- The encoded metadata that a JSON text stands for. -/
def encodeText (text : String) : Except Error Bytes :=
  (Entries.ofText text).map Entries.encode

/-- The text of the metadata under a handle. -/
def metadataText (h : Handle) (store : Store) : Except Error String :=
  match store.object h with
  | .error error => .error error
  | .ok object => (Entries.decode object.metadata).map Entries.toText

/-- The answer to a call, and the shared store afterwards. -/
def run (call : Call) (shared : Shared) : Answer × Shared :=
  match call with
  | .newData hasPlace =>
    let ((status, written), shared) := shared.request hasPlace (ask .allocateData)
    (.handle status written, shared)
  | .newCommand first second hasPlace =>
    match readText? first, readText? second with
    | some first, some second =>
      let ((status, written), shared) :=
        shared.request hasPlace (ask (.allocateCommand first second))
      (.handle status written, shared)
    | _, _ => (.handle .invalidArgument none, shared)
  | .delete h => shared.command (ask (.delete h))
  | .clear h => shared.command (ask (.clear h))
  | .kind h hasPlace =>
    let ((status, written), shared) := shared.request hasPlace (ask (.kind h))
    (.kind status written, shared)
  | .argCount h hasPlace =>
    let ((status, written), shared) := shared.request hasPlace (ask (.argCount h))
    (.number status written, shared)
  | .setEncoded h input =>
    match input.contents? with
    | none => (.plain .invalidArgument, shared)
    | some blob => shared.command (ask (.setMetadata h blob))
  | .setText h input =>
    match readText? input with
    | none => (.plain .invalidArgument, shared)
    | some text =>
      match encodeText text with
      | .error error => (.plain (.ofError error), shared)
      | .ok blob => shared.command (ask (.setMetadata h blob))
  | .push h input =>
    match input.contents? with
    | none => (.plain .invalidBinaryArgument, shared)
    | some arg => shared.command (ask (.push h arg))
  | .getEncoded h target =>
    shared.deliver target (fun store => (store.object h).map StoredObject.metadata)
      target.deliverBytes
  | .getText h target => shared.deliver target (metadataText h) target.deliverText
  | .getArg h index target =>
    shared.deliver target (fun store => (store.object h).map fun object => object.args[index]?)
      fun
        | some arg => target.deliverBytes arg
        | none => target.refuse .indexOutOfRange
  | .getInterface h target =>
    shared.deliver target (fun store => (store.names h).map Prod.fst) target.deliverText
  | .getOperation h target =>
    shared.deliver target (fun store => (store.names h).map Prod.snd) target.deliverText
  | .dump h target => shared.deliver target (fun store => store.dump h) target.deliverText

end Call

/-- The message of the last panic, written to memory: none has occurred, so it is an empty text. Its
length comes with it. -/
def lastPanic (memory : Memory) : Nat × Memory :=
  (0, memory.write [terminator])

end Parcel
