import Parcel.Metadata.Datum

/-!
# Reading metadata at a type

Types whose values can be stored as metadata and read back. A number is read at an integer type only
if it is an integer in range; at the type of doubles every number is read, an integer as the nearest
double. Why a value cannot be read at a type is not told, so the error names its key alone.

## Main definitions

* `Storable`: the structure of a type's values, and the reading of a metadata value
* `SortedTable`: a table with its keys in the order of their bytes
-/

namespace Parcel

/-- A type whose values can be stored as metadata. -/
class Storable (α : Type) where
  /-- The structure of a value. -/
  datum : α → Datum
  /-- The value that a metadata value is read as. -/
  ofJson? : Json → Option α

namespace Storable

/-- The integer that a metadata value is, if it lies within the bounds. -/
def integer? (least greatest : Int) : Json → Option Int
  | .integer n => if least ≤ n ∧ n ≤ greatest then some n else none
  | _ => none

instance : Storable UInt8 where
  datum n := .integer n.toNat
  ofJson? v := (integer? 0 (UInt8.size - 1) v).map fun n => UInt8.ofNat n.toNat

instance : Storable UInt64 where
  datum n := .integer n.toNat
  ofJson? v := (integer? 0 (UInt64.size - 1) v).map fun n => UInt64.ofNat n.toNat

instance : Storable Int64 where
  datum n := .integer n.toInt
  ofJson? v := (integer? Int64.minValue.toInt Int64.maxValue.toInt v).map Int64.ofInt

instance : Storable Bool where
  datum := .bool
  ofJson?
    | .bool b => some b
    | _ => none

instance : Storable String where
  datum := .text
  ofJson?
    | .text s => some s
    | _ => none

instance : Storable Char where
  datum c := .text (String.singleton c)
  ofJson?
    | .text s =>
      match s.toList with
      | [c] => some c
      | _ => none
    | _ => none

instance : Storable Unit where
  datum _ := .unit
  ofJson?
    | .null => some ()
    | _ => none

instance : Storable Double where
  datum := .double
  ofJson?
    | .double x => some x
    | .integer n => some (Double.ofInt n)
    | _ => none

instance {α : Type} [Storable α] : Storable (Option α) where
  datum
    | none => .unit
    | some x => .wrapped (datum x)
  ofJson?
    | .null => some none
    | v => (ofJson? v).map some

instance {α : Type} [Storable α] : Storable (List α) where
  datum xs := .sequence (xs.map datum)
  ofJson?
    | .array items => items.mapM ofJson?
    | _ => none

end Storable

/-- A table with its keys in the order of their bytes, each of them once. -/
structure SortedTable (α : Type) where
  entries : List (String × α)
  sorted : entries.Pairwise fun a b => Utf8.byteOrder b.1 a.1 = false

/-- The table of the given entries, if no key occurs twice. -/
def SortedTable.ofEntries? {α : Type} (entries : List (String × α)) : Option (SortedTable α) :=
  let inOrder := entries.mergeSort fun a b => Utf8.byteOrder a.1 b.1
  if h : inOrder.Pairwise fun a b => Utf8.byteOrder b.1 a.1 = false then some ⟨inOrder, h⟩
  else none

instance {α : Type} [Storable α] : Storable (SortedTable α) where
  datum table := .map (table.entries.map fun entry => (.text entry.1, Storable.datum entry.2))
  ofJson?
    | .object entries => do
      let read ← entries.mapM fun entry => (Storable.ofJson? entry.2).map fun x => (entry.1, x)
      SortedTable.ofEntries? read
    | _ => none

end Parcel
