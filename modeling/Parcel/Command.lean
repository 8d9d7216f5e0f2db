import Parcel.Identifier
import Parcel.Payload.Edit

/-!
# Commands

A command names an interface and one of its operations, and carries a payload.

## Main definitions

* `Command`: identifiers with a payload
* `Command.ofPayload`, `Command.ofOffers`: commands from texts, which have to be identifiers
* `Command.same`, `Command.text`: equality, and the form for people
-/

namespace Parcel

/-- An operation of an interface with its payload. -/
structure Command where
  interface : Identifier
  operation : Identifier
  payload : Payload

namespace Command

/-- The command with the given names and payload; the interface is checked first. -/
def ofPayload (interface operation : String) (payload : Payload) : Except Error Command :=
  match Identifier.ofString interface with
  | .error error => .error error
  | .ok interface =>
    match Identifier.ofString operation with
    | .error error => .error error
    | .ok operation => .ok ⟨interface, operation, payload⟩

/-- The command with the given names and an empty payload. -/
def ofNames (interface operation : String) : Except Error Command :=
  ofPayload interface operation .empty

/-- The command with the given names, arguments and typed values; the names are checked before the
values. -/
def ofOffers (interface operation : String) (args : List Bytes)
    (entries : List (String × Offer)) : Except Error Command :=
  match ofNames interface operation with
  | .error error => .error error
  | .ok command =>
    match Payload.ofOffers args entries with
    | .error error => .error error
    | .ok payload => .ok { command with payload := payload }

/-- The answer to an edit of the payload, and the command afterwards. -/
def edit (command : Command) (change : Edit) : Except Error Edit.Reply × Command :=
  let (reply, payload) := command.payload.edit change
  (reply, { command with payload := payload })

/-- Whether two commands have the same names and payloads that agree. -/
def same (a b : Command) : Bool :=
  a.interface == b.interface && a.operation == b.operation && a.payload.same b.payload

/-- A command as people read it. -/
def text (command : Command) : String :=
  let names := [command.interface, command.operation].map fun name => "'" ++ name.text ++ "'"
  Kind.command.name ++ "(" ++ String.intercalate ", " (names ++ command.payload.parts) ++ ")"

end Command

end Parcel
