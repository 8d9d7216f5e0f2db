import Parcel.Proofs.Cbor.Extent
import Parcel.Proofs.Metadata.RoundTrip

/-!
# What is decoded fits memory

A value is converted from an item with as many items, entries and bytes of text, and an item is no
larger than the bytes it was read from. So the mapping that bytes hold has lengths that fit 64 bits
if theirs does.

## Main results

* `Item.length_of_itemsToJson`, `Item.texts_of_entriesToJson`: conversion keeps lengths and keys
* `Item.addressable_of_toJson`: the value of an item whose extent fits 64 bits
* `Entries.addressable_of_decode`: the mapping of bytes whose length does
-/

namespace Parcel

namespace Cbor.Item

open Json

variable {levels : Nat} {item : Item} {items : List Item} {entries : List (Item × Item)} {v : Json}

theorem length_of_itemsToJson {index : Nat} {values : List Json}
    (h : itemsToJson levels index items = .ok values) : values.length = items.length := by
  induction items generalizing index values with
  | nil =>
    cases h
    rfl
  | cons item rest ih =>
    obtain ⟨value, others, -, hothers, rfl⟩ := itemsToJson_cons_eq_ok h
    rw [List.length_cons, List.length_cons, ih hothers]

/-- The keys of an object are the texts that the map has for keys, in their order. -/
theorem texts_of_entriesToJson {seen : List String} {m : Entries}
    (h : entriesToJson levels seen entries = .ok m) :
    (Entries.keys m).map text = entries.map Prod.fst := by
  induction entries generalizing seen m with
  | nil =>
    cases h
    rfl
  | cons entry rest ih =>
    obtain ⟨key, item⟩ := entry
    obtain ⟨name, value, others, rfl, -, -, hothers, rfl⟩ := entriesToJson_cons_eq_ok h
    rw [Entries.keys_cons, List.map_cons, List.map_cons, ih hothers]

/-- An array is addressable if its extent fits 64 bits and the values of its items are. -/
theorem addressable_of_itemsToJson {values : List Json}
    (hvalues : itemsToJson levels 0 items = .ok values)
    (hextent : (array items).extent ≤ argumentBound)
    (hinside : ∀ item ∈ items, ∀ v, toJson levels item = .ok v → item.extent ≤ argumentBound →
      Addressable v) : Addressable (.array values) := by
  rw [extent_array] at hextent
  refine addressable_array.2 ⟨?_, ?_⟩
  · have := length_le_total extent_pos items
    rw [length_of_itemsToJson hvalues]
    omega
  · intro value hmem
    obtain ⟨item, hitem, hvalue⟩ := exists_of_itemsToJson hvalues value hmem
    have := size_le_total extent hitem
    exact hinside item hitem value hvalue (by omega)

/-- An object is addressable if the extent of its map fits 64 bits and the values in it are. -/
theorem addressable_of_entriesToJson {m : Entries} (hm : entriesToJson levels [] entries = .ok m)
    (hextent : (map entries).extent ≤ argumentBound)
    (hinside : ∀ entry ∈ entries, ∀ v, toJson levels entry.2 = .ok v →
      entry.2.extent ≤ argumentBound → Addressable v) : Addressable (.object m) := by
  rw [extent_map] at hextent
  have htexts := texts_of_entriesToJson hm
  -- each entry lies within the extents of all entries, and so do its key and its value
  have hentry {entry : Item × Item} (hmem : entry ∈ entries) :
      entry.1.extent + entry.2.extent < argumentBound := by
    have := size_le_total (fun entry => entry.1.extent + entry.2.extent) hmem
    omega
  refine addressable_object.2 ⟨⟨?_, ?_⟩, ?_⟩
  · have hlength : m.length = entries.length := by
      simpa [Entries.keys] using congrArg List.length htexts
    have hpos (entry : Item × Item) : 0 < entry.1.extent + entry.2.extent :=
      Nat.add_pos_left (extent_pos entry.1) _
    have := length_le_total hpos entries
    omega
  · intro key hmem
    have htext : text key ∈ entries.map Prod.fst := htexts ▸ List.mem_map_of_mem hmem
    obtain ⟨entry, hmem, hkey⟩ := List.mem_map.1 htext
    have := hentry hmem
    rw [hkey, extent] at this
    omega
  · intro entry hmem
    obtain ⟨-, -, hvalues⟩ := exists_of_entriesToJson hm
    obtain ⟨item, hitem, hvalue⟩ := hvalues entry hmem
    obtain ⟨origin, horigin, rfl⟩ := List.mem_map.1 hitem
    have := hentry horigin
    exact hinside origin horigin entry.2 hvalue (by omega)

/-- **The value of an item** is addressable if the extent of the item fits 64 bits. -/
theorem addressable_of_toJson (h : toJson levels item = .ok v)
    (hextent : item.extent ≤ argumentBound) :
    Addressable v := by
  induction item using inductionOn generalizing levels v with
  | text s =>
    cases h
    exact addressable_text.2 hextent
  | array items ih =>
    obtain ⟨levels, values, rfl, hvalues, rfl⟩ := toJson_array_eq_ok h
    exact addressable_of_itemsToJson hvalues hextent fun item hmem _ => ih item hmem
  | map entries ih =>
    obtain ⟨levels, m, rfl, hm, rfl⟩ := toJson_map_eq_ok h
    exact addressable_of_entriesToJson hm hextent fun entry hmem _ => ih entry hmem
  | integer n =>
    obtain ⟨-, rfl⟩ := toJson_integer_eq_ok h
    simp
  | double x =>
    obtain ⟨-, rfl⟩ := toJson_double_eq_ok h
    simp
  | bytes b => simp [toJson] at h
  | tag number content _ => simp [toJson] at h
  | _ =>
    cases h
    exact (every_of_not_isContainer rfl).2 trivial

end Cbor.Item

namespace Entries

/-- **What is decoded is addressable**, as the bytes are that it was decoded from. -/
theorem addressable_of_decode {bytes : Bytes} {m : Entries} (h : decode bytes = .ok m)
    (hlength : bytes.length < UInt64.size) : Json.Addressable (.object m) := by
  obtain ⟨item, hread, hitem⟩ := exists_of_decode h
  have hextent := Cbor.sized_read maxDepth bytes hread
  rw [List.length_nil, Nat.add_zero, Nat.zero_add] at hextent
  exact Cbor.Item.addressable_of_toJson hitem (Nat.le_trans hextent (Nat.le_of_lt hlength))

end Entries

end Parcel
