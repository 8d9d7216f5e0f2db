import Parcel.Json
import Parcel.Text.Utf8

/-!
# The canonical order of entries

Encoded mappings list shorter keys first and keys of one length by their bytes, at every level. The
order in which entries were inserted leaves no trace.

## Main definitions

* `keyOrder`: the order of keys
* `Json.canonical`, `Entries.canonical`: the same value with all entries in that order
-/

namespace Parcel

/-- Whether one key comes before another, or is the same: the shorter first, keys of one length by
their bytes. -/
def keyOrder (a b : String) : Bool :=
  a.utf8ByteSize < b.utf8ByteSize || (a.utf8ByteSize == b.utf8ByteSize && Utf8.byteOrder a b)

/-- Entries in the order of their keys. -/
def Entries.sorted (entries : Entries) : Entries :=
  entries.mergeSort fun a b => keyOrder a.1 b.1

namespace Json

mutual

/-- The value with the entries of all its objects in the canonical order. -/
def canonical : Json → Json
  | .array items => .array (canonicalItems items)
  | .object entries => .object (Entries.sorted (canonicalEntries entries))
  | scalar => scalar

/-- The items of an array, each canonical. -/
def canonicalItems : List Json → List Json
  | [] => []
  | item :: rest => canonical item :: canonicalItems rest

/-- The entries of an object in their own order, each value canonical. -/
def canonicalEntries : List (String × Json) → List (String × Json)
  | [] => []
  | (key, value) :: rest => (key, canonical value) :: canonicalEntries rest

end

theorem canonicalItems_eq_map (items : List Json) :
    canonicalItems items = items.map canonical := by
  induction items with
  | nil => rfl
  | cons item rest ih => rw [canonicalItems, ih, List.map_cons]

theorem canonicalEntries_eq_map (entries : Entries) :
    canonicalEntries entries = entries.map fun entry => (entry.1, canonical entry.2) := by
  induction entries with
  | nil => rfl
  | cons entry rest ih => rw [canonicalEntries, ih, List.map_cons]

end Json

/-- A mapping with its entries, and those of all objects in it, in the canonical order. -/
def Entries.canonical (entries : Entries) : Entries :=
  Entries.sorted (Json.canonicalEntries entries)

end Parcel
