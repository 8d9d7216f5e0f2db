import Parcel.Json.Equality
import Parcel.Metadata.Encoding
import Parcel.Metadata.Typed

/-!
# Payloads

A payload is a list of binary arguments and a metadata mapping. Every way to build one keeps the
mapping within the nesting limit.

## Main definitions

* `Payload`: arguments and metadata
* `Payload.ofParts`, `Payload.ofOffers`: payloads from finished metadata and from typed values
* `Payload.withArg`, `Payload.withEntry`: a payload built step by step
* `Payload.get`, `Payload.getAs`: a metadata value, and one read at a type
* `Payload.same`: equality, regardless of the order of entries
* `Payload.text`: the form for people
-/

namespace Parcel

/-- Binary arguments with a metadata mapping. -/
structure Payload where
  args : List Bytes
  metadata : Entries

namespace Payload

/-- No arguments and no metadata. -/
def empty : Payload := ⟨[], []⟩

instance : Inhabited Payload := ⟨empty⟩

/-- Arguments with finished metadata, which has to keep the nesting limit. -/
def ofParts (args : List Bytes) (metadata : Entries) : Except Error Payload :=
  match Entries.check metadata with
  | .error error => .error error
  | .ok () => .ok ⟨args, metadata⟩

/-- Finished metadata without arguments. -/
def ofMetadata (metadata : Entries) : Except Error Payload :=
  ofParts [] metadata

/-- Arguments without metadata. -/
def ofArgs (args : List Bytes) : Payload :=
  ⟨args, []⟩

/-- The entries of typed values, inserted one after the other behind those already there; the first
value that is refused ends it. -/
def insertOffers (metadata : Entries) : List (String × Offer) → Except Error Entries
  | [] => .ok metadata
  | (key, offer) :: rest =>
    match offer.toMetadata with
    | .error error => .error error
    | .ok value => insertOffers (Entries.insert metadata key value) rest

/-- Arguments with typed values as metadata. -/
def ofOffers (args : List Bytes) (entries : List (String × Offer)) : Except Error Payload :=
  match insertOffers [] entries with
  | .error error => .error error
  | .ok metadata => .ok ⟨args, metadata⟩

/-! ## Arguments -/

/-- Whether there is neither an argument nor metadata. -/
def isEmpty (p : Payload) : Bool :=
  p.args.isEmpty && p.metadata.isEmpty

/-- The argument at an index. -/
def arg (p : Payload) (index : Nat) : Except Error Bytes :=
  match p.args[index]? with
  | some found => .ok found
  | none => .error (.indexOutOfRange index p.args.length)

/-- Whether some argument holds exactly these bytes. -/
def containsArg (p : Payload) (bytes : Bytes) : Bool :=
  p.args.contains bytes

/-- The payload with one more argument at the end. -/
def push (p : Payload) (bytes : Bytes) : Payload :=
  { p with args := p.args ++ [bytes] }

/-- The payload with an argument replaced, and the old one. -/
def setArg (p : Payload) (index : Nat) (bytes : Bytes) : Except Error (Bytes × Payload) :=
  match p.args[index]? with
  | some old => .ok (old, { p with args := p.args.set index bytes })
  | none => .error (.indexOutOfRange index p.args.length)

/-- The payload without one of its arguments, and that argument. -/
def removeArg (p : Payload) (index : Nat) : Except Error (Bytes × Payload) :=
  match p.args[index]? with
  | some old => .ok (old, { p with args := p.args.eraseIdx index })
  | none => .error (.indexOutOfRange index p.args.length)

/-- The payload with an argument put before the one at an index, or at the end. -/
def insertArg (p : Payload) (index : Nat) (bytes : Bytes) : Except Error Payload :=
  if index ≤ p.args.length then .ok { p with args := p.args.insertIdx index bytes }
  else .error (.indexOutOfRange index p.args.length)

/-! ## Metadata -/

/-- The value of a key. -/
def get (p : Payload) (key : String) : Except Error Json :=
  match Entries.get? p.metadata key with
  | some value => .ok value
  | none => .error (.keyNotFound key)

/-- The value of a key, read at a type. -/
def getAs (α : Type) [Storable α] (p : Payload) (key : String) : Except Error α :=
  match p.get key with
  | .error error => .error error
  | .ok value =>
    match Storable.ofJson? value with
    | some x => .ok x
    | none => .error (.unsupportedValue key)

/-- The payload with a value under a key, and the old value of the key. -/
def store (p : Payload) (key : String) (value : Json) : Option Json × Payload :=
  (Entries.get? p.metadata key, { p with metadata := Entries.insert p.metadata key value })

/-- The payload with a typed value under a key, and the old value of the key. -/
def set (p : Payload) (key : String) (offer : Offer) : Except Error (Option Json × Payload) :=
  match offer.toMetadata with
  | .error error => .error error
  | .ok value => .ok (p.store key value)

/-- The payload with a finished value under a key, and the old value of the key. -/
def setValue (p : Payload) (key : String) (value : Json) :
    Except Error (Option Json × Payload) :=
  match value.check with
  | .error error => .error error
  | .ok () => .ok (p.store key value)

/-- The payload with other metadata. -/
def setMetadata (p : Payload) (metadata : Entries) : Except Error Payload :=
  ofParts p.args metadata

/-- The payload without a key, and the value that the key had. -/
def remove (p : Payload) (key : String) : Except Error (Json × Payload) :=
  match Entries.get? p.metadata key with
  | some value => .ok (value, { p with metadata := Entries.erase p.metadata key })
  | none => .error (.keyNotFound key)

/-- The payload with the metadata of a JSON text. -/
def setText (p : Payload) (text : String) : Except Error Payload :=
  match Entries.ofText text with
  | .error error => .error error
  | .ok metadata => .ok { p with metadata := metadata }

/-- The payload with the metadata of encoded bytes. -/
def setEncoded (p : Payload) (bytes : Bytes) : Except Error Payload :=
  match Entries.decode bytes with
  | .error error => .error error
  | .ok metadata => .ok { p with metadata := metadata }

/-! ## Building step by step -/

/-- One more argument. -/
def withArg (p : Payload) (bytes : Bytes) : Payload :=
  p.push bytes

/-- One more typed value. -/
def withEntry (p : Payload) (key : String) (offer : Offer) : Except Error Payload :=
  (p.set key offer).map Prod.snd

/-! ## Comparison and text -/

/-- Whether two payloads have the same arguments in the same order and metadata that agrees. -/
def same (a b : Payload) : Bool :=
  a.args == b.args && Entries.same a.metadata b.metadata

/-- The arguments in order, then the entries in the order of their keys, each as a text. -/
def parts (p : Payload) : List String :=
  let entries := p.metadata.mergeSort fun a b => Utf8.byteOrder a.1 b.1
  p.args.map (fun arg => "b'" ++ Quoted.bytes arg ++ "'")
    ++ entries.map (fun entry => entry.1 ++ "=" ++ entry.2.toText)

/-- A payload as people read it. -/
def text (p : Payload) : String :=
  Kind.data.name ++ "(" ++ String.intercalate ", " p.parts ++ ")"

end Payload

end Parcel
