import Parcel.Exchange.Growable
import Parcel.Object

/-!
# Moving objects to a holder and back

An object is written under a handle of its own kind, which it replaces as a whole, or under a new
one, which is given back if writing fails. Reading asks for everything again and checks it.

## Main definitions

* `Payload.put`, `Command.put`, `Object.put`: writing
* `Payload.fetch`, `Command.fetch`, `Object.fetch`: reading
-/

namespace Parcel

variable {σ : Type} [Holder σ]

/-! ## Writing -/

/-- Arguments added one after the other. -/
def pushAll (h : Handle) : List Bytes → Session σ Unit
  | [] => return ()
  | arg :: rest => do
    ask (.push h arg)
    pushAll h rest

/-- The metadata and then the arguments of a payload, written under an empty handle. -/
def Payload.write (payload : Payload) (h : Handle) : Session σ Unit := do
  ask (.setMetadata h (Entries.encode payload.metadata))
  pushAll h payload.args

/-- A fresh handle is given back if writing to it fails. Whether that succeeds makes no difference,
the first failure is the one reported. -/
def keepOrDelete (h : Handle) (writing : Session σ Unit) : Session σ Handle :=
  tryCatch (do writing; return h) fun error => do
    tryCatch (ask (.delete h)) fun _ => return ()
    throw error

/-- A payload written under a handle, or under a new one. -/
def Payload.put (payload : Payload) : Option Handle → Session σ Handle
  | some h => do
    ask (.clear h)
    payload.write h
    return h
  | none => do
    let h ← ask .allocateData
    keepOrDelete h (payload.write h)

/-- Only the handle of a command will do. -/
def requireCommand (h : Handle) : Session σ Unit := do
  if (← ask (.kind h)) ≠ .command then
    throw (.handleMismatch h .command)

/-- A command written under the handle of a command, or under a new one. -/
def Command.put (command : Command) : Option Handle → Session σ Handle
  | some h => do
    requireCommand h
    ask (.clear h)
    command.payload.write h
    ask (.setNames h command.interface.text command.operation.text)
    return h
  | none => do
    let h ← ask (.allocateCommand command.interface.text command.operation.text)
    keepOrDelete h (command.payload.write h)

/-- An object written under a handle, or under a new one. -/
def Object.put (object : Object) (target : Option Handle) : Session σ Handle :=
  match object with
  | .data payload => payload.put target
  | .command c => c.put target

/-! ## Reading -/

/-- The arguments from an index on, until there is none, behind those already read, which come in
reverse. At most `limit` more are read. -/
def fetchArgs (capacity : Nat) (h : Handle) (limit : Nat) (index : Nat) (read : List Bytes) :
    Session σ (List Bytes) :=
  match limit with
  | 0 => return read.reverse
  | limit + 1 => do
    match ← readGrowable capacity fun size => ask (.arg h index size) with
    | none => return read.reverse
    | some arg => fetchArgs capacity h limit (index + 1) (arg :: read)

/-- The payload under a handle of either kind. -/
def Payload.fetch (capacity : Nat) (h : Handle) : Session σ Payload := do
  let blob ← readGrowable capacity fun size => some <$> ask (.metadata h size)
  let metadata ← Session.ofExcept (Entries.decode (blob.getD []))
  let _ ← ask (.argCount h)
  let limit := Holder.argLimit h (← getThe σ)
  let args ← fetchArgs capacity h (limit + 1) 0 []
  return ⟨args, metadata⟩

/-- The command under a handle, its names checked. -/
def Command.fetch (capacity : Nat) (h : Handle) : Session σ Command := do
  requireCommand h
  let payload ← Payload.fetch capacity h
  let (interface, operation) ← ask (.names h)
  Session.ofExcept (Command.ofPayload interface operation payload)

/-- The object under a handle, whatever its kind. -/
def Object.fetch (capacity : Nat) (h : Handle) : Session σ Object := do
  match ← ask (.kind h) with
  | .data => return .data (← Payload.fetch capacity h)
  | .command => return .command (← Command.fetch capacity h)

end Parcel
