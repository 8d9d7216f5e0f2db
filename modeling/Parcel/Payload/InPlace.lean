import Parcel.Exchange
import Parcel.Payload.Edit

/-!
# Edits in place

An edit takes a few steps on a payload, each of which looks something up, checks what came in, or
writes. A step that fails ends the edit and leaves the payload as the steps before it made it:
nothing is taken back.

## Main definitions

* `Edit.inPlace`: the steps of an edit
-/

namespace Parcel.Edit

open Session (look write)

/-- A value put under a key, where the old value of the key is given back. -/
def writeEntry (key : String) (value : Json) : Session Payload Reply := do
  let old ← look fun p => .ok (Entries.get? p.metadata key)
  write fun p => { p with metadata := Entries.insert p.metadata key value }
  return .value old

/-- Metadata put in the place of all that there is. -/
def writeMetadata (metadata : Entries) : Session Payload Reply := do
  write fun p => { p with metadata := metadata }
  return .done

/-- The steps of an edit. -/
def inPlace : Edit → Session Payload Reply
  | .setArg index bytes => do
    let old ← look (·.arg index)
    write fun p => { p with args := p.args.set index bytes }
    return .arg old
  | .removeArg index => do
    let old ← look (·.arg index)
    write fun p => { p with args := p.args.eraseIdx index }
    return .arg old
  | .push bytes => do
    write (·.push bytes)
    return .done
  | .insertArg index bytes => do
    let count ← look fun p => .ok p.args.length
    if count < index then
      throw (.indexOutOfRange index count)
    write fun p => { p with args := p.args.insertIdx index bytes }
    return .done
  | .extend args => do
    write fun p => { p with args := p.args ++ args }
    return .done
  | .clearArgs => do
    write fun p => { p with args := [] }
    return .done
  | .set key offer => do
    let value ← Session.ofExcept offer.toMetadata
    writeEntry key value
  | .setValue key value => do
    Session.ofExcept value.check
    writeEntry key value
  | .setMetadata metadata => do
    Session.ofExcept (Entries.check metadata)
    writeMetadata metadata
  | .remove key => do
    -- the entry is taken out first, and then it turns out whether there was one
    let old ← look fun p => .ok (Entries.get? p.metadata key)
    write fun p => { p with metadata := Entries.erase p.metadata key }
    match old with
    | some value => return .value (some value)
    | none => throw (.keyNotFound key)
  | .clearMetadata => writeMetadata []
  | .clear => do
    write fun p => { p with args := [] }
    writeMetadata []
  | .setText text => do
    let metadata ← Session.ofExcept (Entries.ofText text)
    writeMetadata metadata
  | .setEncoded bytes => do
    let metadata ← Session.ofExcept (Entries.decode bytes)
    writeMetadata metadata

end Parcel.Edit
