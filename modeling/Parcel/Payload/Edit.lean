import Parcel.Payload

/-!
# Edits of a payload

An edit that fails leaves the payload as it was.

## Main definitions

* `Edit`: the changes that a payload can undergo
* `Edit.Reply`: what an edit answers
* `Payload.edit`: the answer to an edit, and the payload afterwards
-/

namespace Parcel

/-- A change of a payload. -/
inductive Edit
  | setArg (index : Nat) (bytes : Bytes)
  | removeArg (index : Nat)
  | push (bytes : Bytes)
  | insertArg (index : Nat) (bytes : Bytes)
  | extend (args : List Bytes)
  | clearArgs
  | set (key : String) (offer : Offer)
  | setValue (key : String) (value : Json)
  | setMetadata (metadata : Entries)
  | remove (key : String)
  | clearMetadata
  | clear
  | setText (text : String)
  | setEncoded (bytes : Bytes)

/-- What an edit answers: nothing, an argument it took away, or a value it took away, if there was
one. -/
inductive Edit.Reply
  | done
  | arg (bytes : Bytes)
  | value (old : Option Json)

namespace Payload

/-- The answer to an edit that can fail, and the payload afterwards. -/
def settled {α : Type} (p : Payload) (reply : α → Edit.Reply) :
    Except Error (α × Payload) → Except Error Edit.Reply × Payload
  | .ok (answer, changed) => (.ok (reply answer), changed)
  | .error error => (.error error, p)

/-- The answer to an edit, and the payload afterwards. -/
def edit (p : Payload) : Edit → Except Error Edit.Reply × Payload
  | .setArg index bytes => p.settled .arg (p.setArg index bytes)
  | .removeArg index => p.settled .arg (p.removeArg index)
  | .push bytes => (.ok .done, p.push bytes)
  | .insertArg index bytes =>
    p.settled (fun () => .done) ((p.insertArg index bytes).map fun changed => ((), changed))
  | .extend args => (.ok .done, { p with args := p.args ++ args })
  | .clearArgs => (.ok .done, { p with args := [] })
  | .set key offer => p.settled .value (p.set key offer)
  | .setValue key value => p.settled .value (p.setValue key value)
  | .setMetadata metadata =>
    p.settled (fun () => .done) ((p.setMetadata metadata).map fun changed => ((), changed))
  | .remove key => p.settled (fun value => .value (some value)) (p.remove key)
  | .clearMetadata => (.ok .done, { p with metadata := [] })
  | .clear => (.ok .done, empty)
  | .setText text =>
    p.settled (fun () => .done) ((p.setText text).map fun changed => ((), changed))
  | .setEncoded bytes =>
    p.settled (fun () => .done) ((p.setEncoded bytes).map fun changed => ((), changed))

end Payload

end Parcel
