import Parcel.Json.Canonical
import Parcel.Metadata.Rejection

/-!
# JSON values and data items

Every JSON value is a data item. The other way, an item is a JSON value unless something in it has
no JSON counterpart, a key occurs twice, or containers lie too deep inside each other; the first
offence in reading order is reported.

## Main definitions

* `Json.toItem`: a value as an item, entries in their own order
* `Json.encodable`, `Entries.encodable`: the same with the entries in canonical order
* `Cbor.Item.toJson`: an item as a value, or its first offence
-/

namespace Parcel

namespace Json

mutual

/-- The item that a value is, entries in their own order. -/
def toItem : Json → Cbor.Item
  | .null => .null
  | .bool b => .bool b
  | .integer n => .integer n
  | .double x => .double x
  | .text s => .text s
  | .array items => .array (toItems items)
  | .object entries => .map (toItemEntries entries)

/-- The items of an array, each as a data item. -/
def toItems : List Json → List Cbor.Item
  | [] => []
  | item :: rest => toItem item :: toItems rest

/-- The entries of an object as those of a map. -/
def toItemEntries : List (String × Json) → List (Cbor.Item × Cbor.Item)
  | [] => []
  | (key, value) :: rest => (.text key, toItem value) :: toItemEntries rest

end

/-- The item that is written for a value. -/
def encodable (v : Json) : Cbor.Item :=
  v.canonical.toItem

end Json

/-- The item that is written for a mapping. -/
def Entries.encodable (entries : Entries) : Cbor.Item :=
  Json.encodable (.object entries)

namespace Cbor.Item

mutual

/-- The value that an item is, with at most `levels` containers inside each other. -/
def toJson (levels : Nat) : Item → Except Rejection Json
  | .null => .ok .null
  | .bool b => .ok (.bool b)
  | .text s => .ok (.text s)
  | .integer n =>
    if Json.isIntegerInRange n then .ok (.integer n)
    else .error (.atRoot (.integer n) .integerRange)
  | .double x =>
    if x.isFinite then .ok (.double x) else .error (.atRoot (.double x) .notFinite)
  | .bytes b => .error (.atRoot (.bytes b) .byteString)
  | .tag number content => .error (.atRoot (.tag number content) .taggedValue)
  | .array items =>
    match levels with
    | 0 => .error (.tooDeep "array")
    | levels + 1 => (itemsToJson levels 0 items).map .array
  | .map entries =>
    match levels with
    | 0 => .error (.tooDeep "map")
    | levels + 1 => (entriesToJson levels [] entries).map .object

/-- The values of the items of an array, the first of them at `index`. -/
def itemsToJson (levels index : Nat) : List Item → Except Rejection (List Json)
  | [] => .ok []
  | item :: rest =>
    match toJson levels item with
    | .error rejection => .error (rejection.under (.index index))
    | .ok value => (itemsToJson levels (index + 1) rest).map (value :: ·)

/-- The entries of a map behind those with the keys `seen`. Of each entry the key has to be a text,
then the value is looked at, then the key has to be new. -/
def entriesToJson (levels : Nat) (seen : List String) :
    List (Item × Item) → Except Rejection (List (String × Json))
  | [] => .ok []
  | (.text key, item) :: rest =>
    match toJson levels item with
    | .error rejection => .error (rejection.under (.key key))
    | .ok value =>
      if key ∈ seen then .error ⟨[.key key], Quoted.text key, .keyRepeated⟩
      else (entriesToJson levels (key :: seen) rest).map ((key, value) :: ·)
  | (key, _) :: _ => .error (.atRoot key .keyNotText)

end

/-- The value that an item is when it is to be stored under a metadata key. -/
def toEntryValue (item : Item) : Except Rejection Json :=
  toJson (maxDepth - 1) item

end Cbor.Item

end Parcel
