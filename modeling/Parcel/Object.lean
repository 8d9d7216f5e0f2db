import Parcel.Command

/-!
# Objects

What a handle can stand for: a plain payload or a command.

## Main definitions

* `Object`: a payload or a command
* `Object.kind`, `Object.payload`: its kind, and its payload without the names
* `Object.edit`: an edit of its payload, which leaves kind and names alone
* `Object.same`: equality; a payload never equals a command
-/

namespace Parcel

/-- A payload or a command. -/
inductive Object
  | data (payload : Payload)
  | command (command : Command)

namespace Object

/-- The kind of an object. -/
def kind : Object → Kind
  | .data _ => .data
  | .command _ => .command

/-- The payload of an object. -/
def payload : Object → Payload
  | .data payload => payload
  | .command c => c.payload

/-- The names of a command. -/
def names? : Object → Option (Identifier × Identifier)
  | .data _ => none
  | .command c => some (c.interface, c.operation)

/-- Whether two objects are of one kind and agree. -/
def same : Object → Object → Bool
  | .data a, .data b => a.same b
  | .command a, .command b => a.same b
  | _, _ => false

/-- The same object around another payload. -/
def withPayload (object : Object) (payload : Payload) : Object :=
  match object with
  | .data _ => .data payload
  | .command c => .command { c with payload := payload }

/-- The answer to an edit of the payload, and the object afterwards. -/
def edit (object : Object) (change : Edit) : Except Error Edit.Reply × Object :=
  let (reply, payload) := object.payload.edit change
  (reply, object.withPayload payload)

/-- An object as people read it. -/
def text : Object → String
  | .data payload => payload.text
  | .command c => c.text

end Object

end Parcel
