import Parcel.Double.Decimal
import Parcel.Text.Quoted

/-!
# CBOR data items

The data model of the binary encoding, which is wider than that of JSON: it has byte strings, tagged
items, keys that are no text, and a key may occur more than once.

## Main definitions

* `Cbor.Item`: a data item
* `Item.ofInt`: an integer of any size, as an integer or as a tagged byte string
* `Item.describe`: the form in which messages show an item
-/

namespace Parcel.Cbor

/-- A data item. Integers lie between `-2 ^ 64` and `2 ^ 64 - 1`. -/
inductive Item where
  | null
  | bool (value : Bool)
  | integer (value : Int)
  | double (value : Double)
  | text (value : String)
  | bytes (value : Bytes)
  | tag (number : Nat) (content : Item)
  | array (items : List Item)
  | map (entries : List (Item × Item))
deriving Inhabited

namespace Item

/-- The tag of the big-endian bytes of a natural number. -/
def positiveTag : Nat := 2

/-- The tag of the big-endian bytes of `-1 - n` for a negative number `n`. -/
def negativeTag : Nat := 3

/-- The bound on the argument of an item's header. -/
def argumentBound : Nat := UInt64.size

/-- An integer of any size: one outside the range of integer items becomes a tagged byte string. -/
def ofInt (n : Int) : Item :=
  if -(argumentBound : Int) ≤ n ∧ n < argumentBound then .integer n
  else if n < 0 then .tag negativeTag (.bytes (Bytes.minimal (-1 - n).natAbs))
  else .tag positiveTag (.bytes (Bytes.minimal n.natAbs))

/-- Doubles in messages are positional from 0.0001 up to 16 digits before the point, and ties go
up. -/
def doubleStyle : DecimalStyle where
  leastPositional := -4
  greatestPositional := 15
  plus := []
  tie := .up

/-- Texts with a comma and a space between them. -/
def commaSeparated (texts : List String) : String :=
  String.intercalate ", " texts

mutual

/-- An item as messages show it. -/
def describe : Item → String
  | .null => "Null"
  | .bool true => "Bool(true)"
  | .bool false => "Bool(false)"
  | .integer n => "Integer(Integer(" ++ toString n ++ "))"
  | .double x => "Float(" ++ String.ofList (doubleStyle.text x) ++ ")"
  | .text s => "Text(" ++ Quoted.text s ++ ")"
  | .bytes b => "Bytes([" ++ commaSeparated (b.map fun byte => toString byte.toNat) ++ "])"
  | .tag number content => "Tag(" ++ toString number ++ ", " ++ describe content ++ ")"
  | .array items => "Array([" ++ commaSeparated (describeItems items) ++ "])"
  | .map entries => "Map([" ++ commaSeparated (describeEntries entries) ++ "])"

/-- The items of an array as messages show them. -/
def describeItems : List Item → List String
  | [] => []
  | item :: rest => describe item :: describeItems rest

/-- The entries of a map as messages show them. -/
def describeEntries : List (Item × Item) → List String
  | [] => []
  | (key, value) :: rest =>
    ("(" ++ describe key ++ ", " ++ describe value ++ ")") :: describeEntries rest

end

end Item

end Parcel.Cbor
