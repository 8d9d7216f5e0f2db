import Parcel.Error

/-!
# Exchange by handle

Objects live with a holder, who knows them by handle and answers requests about them. Requests carry
plain bytes and texts; what can be read comes in two goes, since only the answer to the first tells
how large a buffer has to be.

## Main definitions

* `Request`, `Request.Reply`: what can be asked, and the form of the answer
* `Reading`: the answer to a read, with the true length and what went into the buffer
* `Holder`: a state that answers requests
* `Session`, `ask`: a conversation with a holder, which an error ends
* `Session.look`, `Session.write`: steps that are taken on a state itself
-/

namespace Parcel

/-- What a holder can be asked. -/
inductive Request
  /-- A new handle for an empty payload. -/
  | allocateData
  /-- A new handle for a command with an empty payload. -/
  | allocateCommand (interface operation : String)
  /-- The kind of an object. -/
  | kind (handle : Handle)
  /-- To make a payload empty. -/
  | clear (handle : Handle)
  /-- To replace the encoded metadata. -/
  | setMetadata (handle : Handle) (blob : Bytes)
  /-- The encoded metadata, into a buffer of the given size. -/
  | metadata (handle : Handle) (capacity : Nat)
  /-- To add an argument at the end. -/
  | push (handle : Handle) (arg : Bytes)
  /-- An argument, into a buffer of the given size. -/
  | arg (handle : Handle) (index capacity : Nat)
  /-- The number of arguments. -/
  | argCount (handle : Handle)
  /-- To replace the names of a command. -/
  | setNames (handle : Handle) (interface operation : String)
  /-- The names of a command. -/
  | names (handle : Handle)
  /-- To give a handle back. -/
  | delete (handle : Handle)
deriving DecidableEq, Repr

/-- The answer to a read. -/
structure Reading where
  /-- The true length of the item. -/
  length : Nat
  /-- What was put at the front of the buffer. -/
  written : Bytes
deriving DecidableEq, Repr

/-- An item is copied only if all of it fits the buffer. -/
def Reading.ofItem (item : Bytes) (capacity : Nat) : Reading :=
  ⟨item.length, if item.length ≤ capacity then item else []⟩

/-- The form of the answer to a request. -/
abbrev Request.Reply : Request → Type
  | .allocateData => Handle
  | .allocateCommand _ _ => Handle
  | .kind _ => Kind
  | .metadata _ _ => Reading
  | .arg _ _ _ => Option Reading
  | .argCount _ => Nat
  | .names _ => String × String
  | .clear _ => Unit
  | .setMetadata _ _ => Unit
  | .push _ _ => Unit
  | .setNames _ _ _ => Unit
  | .delete _ => Unit

/-- States that answer requests. -/
class Holder (σ : Type) where
  /-- The answer to a request, and the state afterwards. -/
  perform : (request : Request) → σ → Except Error request.Reply × σ
  /-- A bound on the arguments that can be read off a handle. -/
  argLimit : Handle → σ → Nat

/-- A conversation with a holder. An error ends it, and leaves the holder as it is by then. -/
abbrev Session (σ : Type) := ExceptT Error (StateM σ)

/-- One request and its answer. -/
def ask {σ : Type} [Holder σ] (request : Request) : Session σ request.Reply :=
  ExceptT.mk fun state => Holder.perform request state

/-- A result that involves no request. -/
def Session.ofExcept {σ α : Type} (result : Except Error α) : Session σ α :=
  ExceptT.mk (pure result)

/-- A step that only looks at the state. -/
def Session.look {σ α : Type} (item : σ → Except Error α) : Session σ α := do
  Session.ofExcept (item (← getThe σ))

/-- A step that writes to the state. -/
def Session.write {σ : Type} (change : σ → σ) : Session σ Unit :=
  modifyThe σ change

/-- A conversation from a given state on: how it ends, and the state afterwards. -/
def Session.outcome {σ α : Type} (session : Session σ α) (state : σ) : Except Error α × σ :=
  StateT.run (ExceptT.run session) state

end Parcel
