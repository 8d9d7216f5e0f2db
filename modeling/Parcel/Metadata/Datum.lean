import Parcel.Metadata.Conversion

/-!
# Data of typed values

What a value of any type offers for storage under a metadata key: scalars of all widths, options,
sequences, maps, records and variants. It is turned into a data item as a whole before anything in
it is checked.

## Main definitions

* `Datum`: the structure of a typed value
* `Datum.toItem`: the data item it is, unless the value refuses
* `Offer`, `Offer.toMetadata`: a typed value with the name of its type, and the metadata value it
  is
-/

namespace Parcel

/-- The structure of a typed value. -/
inductive Datum where
  /-- A value without content: nothing, an absent option, or a record without fields. -/
  | unit
  | bool (value : Bool)
  /-- Asks whether the encoding is meant for people. -/
  | readable
  /-- An integer of any width. -/
  | integer (value : Int)
  /-- A single precision number, by its bits. -/
  | single (bits : UInt32)
  | double (value : Double)
  | text (value : String)
  | bytes (value : Bytes)
  /-- A JSON value. -/
  | json (value : Json)
  /-- A present option, or a value under a name of its own. -/
  | wrapped (content : Datum)
  | sequence (items : List Datum)
  | map (entries : List (Datum × Datum))
  /-- Named fields. -/
  | record (fields : List (String × Datum))
  /-- A case of a sum type, by its name, without content. -/
  | constant (name : String)
  /-- A case of a sum type, by its name, with its content. -/
  | variant (name : String) (content : Datum)
  /-- A value that refuses to be stored. -/
  | failing (message : String)
deriving Inhabited

namespace Datum

mutual

/-- The data item of a typed value, or the message of the first part that refuses. -/
def toItem : Datum → Except String Cbor.Item
  | .unit => .ok .null
  | .bool b => .ok (.bool b)
  | .readable => .ok (.bool false)
  | .integer n => .ok (.ofInt n)
  | .single bits => .ok (.double (Double.widen .single bits.toNat))
  | .double x => .ok (.double x)
  | .text s => .ok (.text s)
  | .bytes b => .ok (.bytes b)
  | .json v => .ok v.toItem
  | .wrapped content => toItem content
  | .sequence items => (toItems items).map .array
  | .map entries => (toItemEntries entries).map .map
  | .record fields => (toItemFields fields).map .map
  | .constant name => .ok (.text name)
  | .variant name content => (toItem content).map fun item => .map [(.text name, item)]
  | .failing message => .error message

/-- The data items of a sequence. -/
def toItems : List Datum → Except String (List Cbor.Item)
  | [] => .ok []
  | first :: rest =>
    match toItem first with
    | .error message => .error message
    | .ok item => (toItems rest).map (item :: ·)

/-- The data items of the keys and values of a map. -/
def toItemEntries : List (Datum × Datum) → Except String (List (Cbor.Item × Cbor.Item))
  | [] => .ok []
  | (key, value) :: rest =>
    match toItem key with
    | .error message => .error message
    | .ok key =>
      match toItem value with
      | .error message => .error message
      | .ok value => (toItemEntries rest).map ((key, value) :: ·)

/-- The data items of the fields of a record. -/
def toItemFields : List (String × Datum) → Except String (List (Cbor.Item × Cbor.Item))
  | [] => .ok []
  | (name, value) :: rest =>
    match toItem value with
    | .error message => .error message
    | .ok value => (toItemFields rest).map ((.text name, value) :: ·)

end

end Datum

/-- What a typed value offers for storage: its structure, and the name of its type, which is all
that messages can show of a value that refuses. -/
structure Offer where
  typeName : String
  datum : Datum

/-- The metadata value of an offer: all of it is turned into a data item before any of it is
checked. -/
def Offer.toMetadata (offer : Offer) : Except Error Json :=
  match offer.datum.toItem with
  | .error message =>
    .error (.invalidMetadata offer.typeName ("Custom(" ++ Quoted.text message ++ ")"))
  | .ok item =>
    match item.toEntryValue with
    | .error rejection => .error rejection.invalidMetadata
    | .ok value => .ok value

end Parcel
