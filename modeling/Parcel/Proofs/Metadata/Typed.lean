import Mathlib.Data.List.Forall2
import Mathlib.Data.List.Perm.Basic
import Parcel.Metadata.Typed
import Parcel.Proofs.Metadata.Acceptance
import Parcel.Proofs.Metadata.Written
import Parcel.Proofs.Text.ByteOrder
import Parcel.Proofs.Json.Canonical

/-!
# Typed values as metadata

What a typed value offers is the data item of a JSON value, which is then stored. Reading that value
at the type gives the typed value back, and so does reading it in canonical order, in which it comes
back from a store. Only a table is affected by the order: its keys come back in the order of the
encoding, which is another one than its own, and it may have been listed in any order to begin with.

## Main definitions

* `Storable.Represents`: the JSON value that a typed value is stored as, and read back from

## Main results

* `SortedTable.ofEntries?_of_perm`: a table is made of its entries in any order
* `Represents.toMetadata`: what is offered is stored
* `represents_integer`: integers of all types that hold no more than 64 bits
* `Represents.present`, `represents_list`, `represents_table`: options, lists and tables of values
  that can be read back
-/

namespace Parcel

/-! ## Tables -/

namespace SortedTable

variable {α : Type}

/-- The keys of a table are all different. -/
theorem nodup_keys (table : SortedTable α) : (table.entries.map Prod.fst).Nodup := by
  rw [List.Nodup, List.pairwise_map]
  refine table.sorted.imp ?_
  rintro entry other hbefore hkey
  -- a key does not come before itself
  have hself := Utf8.byteOrder_total entry.1 entry.1
  rw [Bool.or_self] at hself
  rw [← hkey, hself] at hbefore
  contradiction

/-- **A table is made of its entries** in any order. -/
theorem ofEntries?_of_perm {table : SortedTable α} {listing : List (String × α)}
    (h : listing.Perm table.entries) : SortedTable.ofEntries? listing = some table := by
  have hnodup : (listing.map Prod.fst).Nodup := (h.map Prod.fst).nodup_iff.2 table.nodup_keys
  have hsorted : table.entries.Pairwise fun a b => Utf8.byteOrder a.1 b.1 = true := by
    refine table.sorted.imp ?_
    intro entry other hbefore
    have htotal := Utf8.byteOrder_total entry.1 other.1
    rwa [hbefore, Bool.or_false] at htotal
  have horder : listing.mergeSort (fun a b => Utf8.byteOrder a.1 b.1) = table.entries := by
    rw [mergeSort_eq_of_perm Utf8.byteOrder_trans Utf8.byteOrder_total Utf8.byteOrder_antisymm h
      hnodup]
    exact List.mergeSort_of_pairwise hsorted
  rw [SortedTable.ofEntries?]
  simp only [horder, table.sorted, dif_pos]

end SortedTable

namespace Storable

open Json

variable {α : Type} [Storable α] {levels : Nat} {datum : Datum} {v : Json} {x : α}

/-! ## Values that are read back -/

/-- **A JSON value represents a typed value** that offers it: it may be metadata, with so many
levels of containers, and the typed value is read from it, also with all its entries in canonical
order. -/
structure Represents (levels : Nat) (datum : Datum) (v : Json) (x : α) : Prop where
  /-- What is offered is the data item of the JSON value. -/
  item : datum.toItem = .ok v.toItem
  proper : Proper v
  depth_le : v.depth ≤ levels
  read : ofJson? v = some x
  read_canonical : ofJson? v.canonical = some x

/-- **What is offered is stored** as the value that represents it, whatever the name of the type. -/
theorem Represents.toMetadata (h : Represents levels datum v x) (hlevels : levels ≤ maxDepth - 1)
    (typeName : String) : (Offer.mk typeName datum).toMetadata = .ok v := by
  have hvalue : v.toItem.toEntryValue = .ok v :=
    Json.toJson_toItem h.proper (Nat.le_trans h.depth_le hlevels)
  simp only [Offer.toMetadata, h.item, hvalue]

/-! ## Scalars -/

/-- A scalar has one order only. -/
theorem represents_scalar (hscalar : v.isContainer = false) (hitem : datum.toItem = .ok v.toItem)
    (hproper : Proper v) (hread : ofJson? v = some x) : Represents 0 datum v x where
  item := hitem
  proper := hproper
  depth_le := Nat.le_of_eq (depth_eq_zero hscalar)
  read := hread
  read_canonical := by rwa [canonical_of_not_isContainer hscalar]

/-- **An integer in range** is an integer item, and no tagged byte string. -/
theorem represents_integer {n : Int} (hleast : -2 ^ 63 ≤ n) (hgreatest : n ≤ 2 ^ 64 - 1)
    (hread : ofJson? (.integer n) = some x) : Represents 0 (.integer n) (.integer n) x := by
  have hrange := Cbor.Item.isIntegerInRange_iff.2 ⟨hleast, hgreatest⟩
  refine represents_scalar rfl ?_ (proper_integer.2 hrange) hread
  have hbound : (Cbor.Item.argumentBound : Int) = 2 ^ 64 := rfl
  have hitem : -(Cbor.Item.argumentBound : Int) ≤ n ∧ n < Cbor.Item.argumentBound := by
    omega
  rw [Datum.toItem, Cbor.Item.ofInt, if_pos hitem, toItem]

/-- An integer within the bounds of its type is read as it is. -/
theorem integer?_eq_some {least greatest n : Int} (hleast : least ≤ n) (hgreatest : n ≤ greatest) :
    integer? least greatest (.integer n) = some n :=
  if_pos ⟨hleast, hgreatest⟩

theorem represents_uint8 (n : UInt8) : Represents 0 (Storable.datum n) (.integer n.toNat) n := by
  have hlt := n.toNat_lt
  have hsize : (UInt8.size : Int) = 2 ^ 8 := rfl
  refine represents_integer (by omega) (by omega) ?_
  show (integer? 0 (UInt8.size - 1) _).map _ = _
  rw [integer?_eq_some (by omega) (by omega)]
  simp

theorem represents_uint64 (n : UInt64) : Represents 0 (Storable.datum n) (.integer n.toNat) n := by
  have hlt := n.toNat_lt
  have hsize : (UInt64.size : Int) = 2 ^ 64 := rfl
  refine represents_integer (by omega) (by omega) ?_
  show (integer? 0 (UInt64.size - 1) _).map _ = _
  rw [integer?_eq_some (by omega) (by omega)]
  simp

theorem represents_int64 (n : Int64) : Represents 0 (Storable.datum n) (.integer n.toInt) n := by
  have hle := n.le_toInt
  have hlt := n.toInt_lt
  have hmin : Int64.minValue.toInt = -2 ^ 63 := rfl
  have hmax : Int64.maxValue.toInt = 2 ^ 63 - 1 := rfl
  refine represents_integer (by omega) (by omega) ?_
  show (integer? Int64.minValue.toInt Int64.maxValue.toInt _).map _ = _
  rw [integer?_eq_some (by omega) (by omega)]
  simp

theorem represents_bool (b : Bool) : Represents 0 (Storable.datum b) (.bool b) b :=
  represents_scalar rfl rfl (proper_bool b) rfl

theorem represents_string (s : String) : Represents 0 (Storable.datum s) (.text s) s :=
  represents_scalar rfl rfl (proper_text s) rfl

theorem represents_char (c : Char) :
    Represents 0 (Storable.datum c) (.text (String.singleton c)) c := by
  refine represents_scalar rfl rfl (proper_text _) ?_
  simp [ofJson?]

theorem represents_unit : Represents 0 (Storable.datum ()) .null () :=
  represents_scalar rfl rfl proper_null rfl

theorem represents_double {x : Double} (hx : x.isFinite = true) :
    Represents 0 (Storable.datum x) (.double x) x :=
  represents_scalar rfl rfl (proper_double.2 hx) rfl

/-! ## Options -/

theorem represents_none : Represents 0 (Storable.datum (none : Option α)) .null (none : Option α) :=
  represents_scalar rfl rfl proper_null rfl

theorem ofJson?_option (hv : v ≠ .null) (hread : ofJson? v = some x) :
    (ofJson? v : Option (Option α)) = some (some x) := by
  cases v with
  | null => contradiction
  | _ => exact congrArg (Option.map some) hread

/-- **A present option** is represented by its content, if that is not the value that stands for an
absent one. -/
theorem Represents.present (h : Represents levels (Storable.datum x) v x) (hv : v ≠ .null) :
    Represents levels (Storable.datum (some x)) v (some x) where
  item := h.item
  proper := h.proper
  depth_le := h.depth_le
  read := ofJson?_option hv h.read
  read_canonical := by
    refine ofJson?_option ?_ h.read_canonical
    cases v with
    | null => contradiction
    | _ => exact nofun

/-! ## Lists -/

/-- Items that are read one by one. -/
theorem mapM_of_forall₂ {β γ : Type} {f : β → Option γ} {as : List β} {bs : List γ}
    (h : List.Forall₂ (fun a b => f a = some b) as bs) : as.mapM f = some bs := by
  induction h with
  | nil => rfl
  | cons hitem _ ih =>
    rw [List.mapM_cons, hitem, ih]
    rfl

theorem toItems_map {β : Type} {datum : β → Datum} {value : β → Json} {xs : List β}
    (h : ∀ x ∈ xs, (datum x).toItem = .ok (value x).toItem) :
    Datum.toItems (xs.map datum) = .ok (toItems (xs.map value)) := by
  induction xs with
  | nil => rfl
  | cons x rest ih =>
    rw [List.forall_mem_cons] at h
    simp only [List.map_cons, Datum.toItems, h.1, ih h.2, toItems]
    rfl

/-- **A list** is represented by the array of what represents its items. -/
theorem represents_list {value : α → Json} {xs : List α}
    (h : ∀ x ∈ xs, Represents levels (Storable.datum x) (value x) x) :
    Represents (levels + 1) (Storable.datum xs) (.array (xs.map value)) xs where
  item := by
    have hitems := toItems_map fun x hmem => (h x hmem).item
    show (Datum.toItems (xs.map Storable.datum)).map Cbor.Item.array = _
    rw [hitems, toItem]
    rfl
  proper := proper_array.2 (List.forall_mem_map.2 fun x hmem => (h x hmem).proper)
  depth_le := depth_array_le_succ.2 (List.forall_mem_map.2 fun x hmem => (h x hmem).depth_le)
  read := by
    refine mapM_of_forall₂ (List.forall₂_map_left_iff.2 (List.forall₂_same.2 ?_))
    intro x hmem
    exact (h x hmem).read
  read_canonical := by
    rw [canonical, canonicalItems_eq_map, List.map_map]
    refine mapM_of_forall₂ (List.forall₂_map_left_iff.2 (List.forall₂_same.2 ?_))
    intro x hmem
    exact (h x hmem).read_canonical

/-! ## Tables of values -/

/-- **An object is read as a table** if its entries are read, in some order, as those of the
table. -/
theorem ofJson?_table {entries : Entries} {table : SortedTable α} {listing : List (String × α)}
    (h : List.Forall₂ (fun entry read => entry.1 = read.1 ∧ ofJson? entry.2 = some read.2)
      entries listing) (hperm : listing.Perm table.entries) :
    ofJson? (.object entries) = some table := by
  have hread : (entries.mapM fun entry => (ofJson? entry.2).map fun x => (entry.1, x)) =
      some listing := by
    refine mapM_of_forall₂ (h.imp ?_)
    rintro entry read ⟨hkey, hvalue⟩
    rw [hvalue, hkey]
    rfl
  show (entries.mapM _ >>= SortedTable.ofEntries?) = _
  rw [hread]
  exact SortedTable.ofEntries?_of_perm hperm

/-- The pairs of a map with texts as keys. -/
theorem toItemEntries_map {β : Type} {datum : β → Datum} {value : β → Json}
    {pairs : List (String × β)}
    (h : ∀ pair ∈ pairs, (datum pair.2).toItem = .ok (value pair.2).toItem) :
    Datum.toItemEntries (pairs.map fun pair => (.text pair.1, datum pair.2)) =
      .ok (toItemEntries (pairs.map fun pair => (pair.1, value pair.2))) := by
  induction pairs with
  | nil => rfl
  | cons pair rest ih =>
    rw [List.forall_mem_cons] at h
    simp only [List.map_cons, Datum.toItemEntries, Datum.toItem, h.1, ih h.2, toItemEntries]
    rfl

/-- **A table** is represented by the object of what represents its values, in any order in which
the table may be listed. -/
theorem represents_table {value : α → Json} {table : SortedTable α} {listing : List (String × α)}
    (hlisting : listing.Perm table.entries)
    (h : ∀ entry ∈ table.entries,
      Represents levels (Storable.datum entry.2) (value entry.2) entry.2) :
    Represents (levels + 1)
      (.map (listing.map fun entry => (.text entry.1, Storable.datum entry.2)))
      (.object (listing.map fun entry => (entry.1, value entry.2))) table where
  item := by
    have hpairs := toItemEntries_map fun entry hmem => (h entry (hlisting.mem_iff.1 hmem)).item
    rw [Datum.toItem, hpairs, toItem]
    rfl
  proper := by
    refine proper_object.2 ⟨?_, ?_⟩
    · simpa [Entries.keys, Function.comp_def] using
        (hlisting.map Prod.fst).nodup_iff.2 (table.nodup_keys)
    · exact List.forall_mem_map.2 fun entry hmem => (h entry (hlisting.mem_iff.1 hmem)).proper
  depth_le := depth_object_le_succ.2
    (List.forall_mem_map.2 fun entry hmem => (h entry (hlisting.mem_iff.1 hmem)).depth_le)
  read := by
    refine ofJson?_table (List.forall₂_map_left_iff.2 (List.forall₂_same.2 ?_)) hlisting
    intro entry hmem
    exact ⟨rfl, (h entry (hlisting.mem_iff.1 hmem)).read⟩
  read_canonical := by
    rw [canonical, canonicalEntries_eq_map, List.map_map]
    -- the canonical entries are read one by one, and sorted before
    have hread : List.Forall₂ (fun entry read => entry.1 = read.1 ∧ ofJson? entry.2 = some read.2)
        (listing.map ((fun entry : String × Json => (entry.1, entry.2.canonical)) ∘
          fun entry => (entry.1, value entry.2))) listing := by
      refine List.forall₂_map_left_iff.2 (List.forall₂_same.2 ?_)
      intro entry hmem
      exact ⟨rfl, (h entry (hlisting.mem_iff.1 hmem)).read_canonical⟩
    obtain ⟨sorted, hsorted, hperm⟩ := List.perm_comp_forall₂ (List.mergeSort_perm _ _) hread
    exact ofJson?_table hsorted (hperm.trans hlisting)

end Storable

end Parcel
