import Mathlib.Algebra.Ring.Int.Defs
import Mathlib.Tactic.Choose
import Parcel.Proofs.Metadata.Conversion
import Parcel.Proofs.Metadata.MapOrder

/-!
# Which items are values

An item is converted exactly if it is built from what JSON has, with keys that are texts and all
different in every map, and nests no deeper than the levels given. The value it becomes is the item
again when it is seen as an item in its own order, so what is written for that value is the item
with the entries of every map in canonical order.

## Main definitions

* `Item.Modelled`: items that are built from what JSON has
* `Item.depth`: how many containers of an item lie inside each other
* `Item.Arranged`: an item, and the same item with the entries of every map in canonical order

## Main results

* `Item.toItem_of_toJson`: a converted item is the item of its value
* `Item.modelled_iff_exists_toItem`: the items of proper values, described without values
* `Item.exists_toJson_iff`: the items that are converted
* `Json.arranged_encodable`: what is written for a value is its item in canonical order
* `Item.accepted_items_are_the_json_model`: both directions of the conversion
-/

namespace Parcel

namespace Cbor.Item

/-! ## Items described -/

/-- **Items that are built from what JSON has**: null, booleans, texts, integers of 64 bits with or
without a sign, finite doubles, arrays, and maps whose keys are texts and all different. -/
inductive Modelled : Item → Prop
  | null : Modelled .null
  | bool (b : Bool) : Modelled (.bool b)
  | text (s : String) : Modelled (.text s)
  | integer {n : Int} (hlow : -2 ^ 63 ≤ n) (hhigh : n ≤ 2 ^ 64 - 1) : Modelled (.integer n)
  | double {x : Double} (hfinite : x.isFinite = true) : Modelled (.double x)
  | array {items : List Item} (inside : ∀ item ∈ items, Modelled item) : Modelled (.array items)
  | map (entries : List (String × Item)) (hnodup : (entries.map Prod.fst).Nodup)
      (inside : ∀ entry ∈ entries, Modelled entry.2) :
      Modelled (.map (entries.map fun entry => (.text entry.1, entry.2)))

mutual

/-- The number of arrays, maps and tags that lie inside each other, the item itself included. -/
def depth : Item → Nat
  | .tag _ content => depth content + 1
  | .array items => depthOfItems items + 1
  | .map entries => depthOfEntries entries + 1
  | _ => 0

/-- The greatest depth among the items of an array. -/
def depthOfItems : List Item → Nat
  | [] => 0
  | item :: rest => max (depth item) (depthOfItems rest)

/-- The greatest depth among the keys and values of a map. -/
def depthOfEntries : List (Item × Item) → Nat
  | [] => 0
  | (key, value) :: rest => max (max (depth key) (depth value)) (depthOfEntries rest)

end

@[simp] theorem depth_text (s : String) : depth (.text s) = 0 := rfl

/-- **An item with the entries of every map in canonical order** on the right, and the same item
with the entries in any order on the left: each map on the right has the entries of the one on the
left, their values arranged too, behind keys that come in order, none of them twice. -/
inductive Arranged : Item → Item → Prop
  | scalar {item : Item} (hitem : item.depth = 0) : Arranged item item
  | array (pairs : List (Item × Item)) (inside : ∀ pair ∈ pairs, Arranged pair.1 pair.2) :
      Arranged (.array (pairs.map Prod.fst)) (.array (pairs.map Prod.snd))
  | map {entries : List (Item × Item)} (pairs : List (String × Item × Item))
      (hentries : entries.Perm (pairs.map fun pair => (.text pair.1, pair.2.1)))
      (hordered : (pairs.map Prod.fst).Pairwise KeyBefore)
      (inside : ∀ pair ∈ pairs, Arranged pair.2.1 pair.2.2) :
      Arranged (.map entries) (.map (pairs.map fun pair => (.text pair.1, pair.2.2)))

variable {levels : Nat} {item : Item} {items : List Item} {entries : List (Item × Item)} {v : Json}

/-! ## A converted item is the item of its value -/

theorem toItems_of_itemsToJson {index : Nat} {values : List Json}
    (hitems : ∀ item ∈ items, ∀ v, toJson levels item = .ok v → v.toItem = item)
    (h : itemsToJson levels index items = .ok values) : Json.toItems values = items := by
  induction items generalizing index values with
  | nil =>
    cases h
    rfl
  | cons item rest ih =>
    rw [List.forall_mem_cons] at hitems
    obtain ⟨value, others, hvalue, hothers, rfl⟩ := itemsToJson_cons_eq_ok h
    rw [Json.toItems, hitems.1 value hvalue, ih hitems.2 hothers]

theorem toItemEntries_of_entriesToJson {seen : List String} {m : Entries}
    (hentries : ∀ entry ∈ entries, ∀ v, toJson levels entry.2 = .ok v → v.toItem = entry.2)
    (h : entriesToJson levels seen entries = .ok m) : Json.toItemEntries m = entries := by
  induction entries generalizing seen m with
  | nil =>
    cases h
    rfl
  | cons entry rest ih =>
    obtain ⟨key, item⟩ := entry
    rw [List.forall_mem_cons] at hentries
    obtain ⟨name, value, others, rfl, hvalue, -, hothers, rfl⟩ := entriesToJson_cons_eq_ok h
    rw [Json.toItemEntries, hentries.1 value hvalue, ih hentries.2 hothers]

/-- **A converted item is the item of its value**: conversion drops nothing and changes nothing. -/
theorem toItem_of_toJson (h : toJson levels item = .ok v) : v.toItem = item := by
  induction item using inductionOn generalizing levels v with
  | integer n =>
    obtain ⟨-, rfl⟩ := toJson_integer_eq_ok h
    rfl
  | double x =>
    obtain ⟨-, rfl⟩ := toJson_double_eq_ok h
    rfl
  | array items ih =>
    obtain ⟨levels, values, rfl, hvalues, rfl⟩ := toJson_array_eq_ok h
    rw [Json.toItem, toItems_of_itemsToJson (fun item hmem _ => ih item hmem) hvalues]
  | map entries ih =>
    obtain ⟨levels, m, rfl, hm, rfl⟩ := toJson_map_eq_ok h
    rw [Json.toItem, toItemEntries_of_entriesToJson (fun entry hmem _ => ih entry hmem) hm]
  | bytes b => simp [toJson] at h
  | tag number content _ => simp [toJson] at h
  | _ =>
    cases h
    rfl

/-! ## The items of proper values -/

theorem isIntegerInRange_iff {n : Int} :
    Json.isIntegerInRange n = true ↔ -2 ^ 63 ≤ n ∧ n ≤ 2 ^ 64 - 1 := by
  have hlow : Int64.minValue.toInt = -2 ^ 63 := rfl
  have hhigh : (UInt64.size : Int) = 2 ^ 64 := rfl
  rw [Json.isIntegerInRange, Bool.and_eq_true, decide_eq_true_eq, decide_eq_true_eq, hlow, hhigh]
  omega

/-- The item of a proper value is built from what JSON has. -/
theorem modelled_toItem (hv : Json.Proper v) : Modelled v.toItem := by
  induction v using Json.inductionOn with
  | null => exact .null
  | bool b => exact .bool b
  | text s => exact .text s
  | integer n =>
    obtain ⟨hlow, hhigh⟩ := isIntegerInRange_iff.1 (Json.proper_integer.1 hv)
    exact .integer hlow hhigh
  | double x => exact .double (Json.proper_double.1 hv)
  | array items ih =>
    rw [Json.toItem, Json.toItems_eq_map]
    refine .array (List.forall_mem_map.2 fun item hmem => ?_)
    exact ih item hmem (Json.proper_array.1 hv item hmem)
  | object entries ih =>
    obtain ⟨hnodup, hinside⟩ := Json.proper_object.1 hv
    have hmap := Modelled.map (entries.map fun entry => (entry.1, entry.2.toItem))
      (by simpa [Function.comp_def, Entries.keys] using hnodup)
      (List.forall_mem_map.2 fun entry hmem => ih entry hmem (hinside entry hmem))
    rw [Json.toItem, Json.toItemEntries_eq_map]
    rwa [List.map_map] at hmap

/-- What is built from what JSON has is the item of a proper value. -/
theorem Modelled.exists_toItem (h : Modelled item) : ∃ v, Json.Proper v ∧ v.toItem = item := by
  induction h with
  | null => exact ⟨.null, Json.proper_null, rfl⟩
  | bool b => exact ⟨.bool b, Json.proper_bool b, rfl⟩
  | text s => exact ⟨.text s, Json.proper_text s, rfl⟩
  | integer hlow hhigh =>
    exact ⟨.integer _, Json.proper_integer.2 (isIntegerInRange_iff.2 ⟨hlow, hhigh⟩), rfl⟩
  | double hfinite => exact ⟨.double _, Json.proper_double.2 hfinite, rfl⟩
  | @array items inside ih =>
    -- one function gives the value of every item, so that the array can be mapped
    choose! value hproper hvalue using ih
    refine ⟨.array (items.map value), Json.proper_array.2 (List.forall_mem_map.2 hproper), ?_⟩
    rw [Json.toItem, Json.toItems_eq_map, List.map_map]
    exact congrArg Item.array ((List.map_congr_left hvalue).trans (List.map_id items))
  | map entries hnodup inside ih =>
    choose! value hproper hvalue using ih
    refine ⟨.object (entries.map fun entry => (entry.1, value entry)), ?_, ?_⟩
    · refine Json.proper_object.2 ⟨?_, List.forall_mem_map.2 hproper⟩
      simpa [Function.comp_def, Entries.keys] using hnodup
    · rw [Json.toItem, Json.toItemEntries_eq_map, List.map_map]
      refine congrArg Item.map (List.map_congr_left fun entry hmem => ?_)
      exact congrArg (Prod.mk _) (hvalue entry hmem)

/-- **The items of proper values**, described without values. -/
theorem modelled_iff_exists_toItem : Modelled item ↔ ∃ v, Json.Proper v ∧ v.toItem = item := by
  refine ⟨Modelled.exists_toItem, ?_⟩
  rintro ⟨v, hv, rfl⟩
  exact modelled_toItem hv

end Cbor.Item

/-! ## Depths -/

namespace Json

open Cbor.Item

variable {v : Json}

theorem depthOfItems_toItems {items : List Json}
    (h : ∀ item ∈ items, item.toItem.depth = item.depth) :
    Cbor.Item.depthOfItems (toItems items) = depthOfItems items := by
  induction items with
  | nil => rfl
  | cons item rest ih =>
    rw [List.forall_mem_cons] at h
    rw [toItems, Cbor.Item.depthOfItems, depthOfItems, h.1, ih h.2]

theorem depthOfEntries_toItemEntries {entries : Entries}
    (h : ∀ entry ∈ entries, entry.2.toItem.depth = entry.2.depth) :
    Cbor.Item.depthOfEntries (toItemEntries entries) = depthOfEntries entries := by
  induction entries with
  | nil => rfl
  | cons entry rest ih =>
    obtain ⟨key, value⟩ := entry
    rw [List.forall_mem_cons] at h
    rw [toItemEntries, Cbor.Item.depthOfEntries, depthOfEntries, h.1, ih h.2, depth_text,
      Nat.zero_max]

/-- Containers of a value are containers of its item, and keys are none. -/
theorem depth_toItem (v : Json) : v.toItem.depth = v.depth := by
  induction v using inductionOn with
  | array items ih => rw [toItem, Cbor.Item.depth, depth, depthOfItems_toItems ih]
  | object entries ih => rw [toItem, Cbor.Item.depth, depth, depthOfEntries_toItemEntries ih]
  | _ => rfl

/-! ## Canonical items -/

/-- **What is written for a value is its item in canonical order**, at every level. -/
theorem arranged_encodable (hv : Proper v) : Arranged v.toItem v.encodable := by
  induction v using inductionOn with
  | array items ih =>
    have h := Arranged.array (items.map fun item => (item.toItem, item.encodable))
      (List.forall_mem_map.2 fun item hmem => ih item hmem (proper_array.1 hv item hmem))
    simpa [encodable, canonical, toItem, toItems_eq_map, canonicalItems_eq_map,
      Function.comp_def] using h
  | object entries ih =>
    obtain ⟨hnodup, hinside⟩ := proper_object.1 hv
    have hmem : ∀ entry ∈ Entries.sorted entries, entry ∈ entries :=
      fun entry h => List.mem_mergeSort.1 h
    -- each entry in its new place, with the item on either side
    have h := @Arranged.map (toItemEntries entries)
      ((Entries.sorted entries).map fun entry => (entry.1, entry.2.toItem, entry.2.encodable))
      (by
        rw [toItemEntries_eq_map, List.map_map]
        exact (List.mergeSort_perm entries _).symm.map _)
      (by
        rw [List.map_map]
        exact pairwise_keyBefore_sorted hnodup)
      (List.forall_mem_map.2 fun entry h =>
        ih entry (hmem entry h) (hinside entry (hmem entry h)))
    simpa [encodable, canonical, toItem, toItemEntries_eq_map, Entries.sorted_canonicalEntries,
      Function.comp_def] using h
  | _ => exact .scalar rfl

end Json

namespace Cbor.Item

open Json

variable {levels : Nat} {item : Item}

/-- **The items that are converted** are built from what JSON has and nest no deeper than the
levels given. -/
theorem exists_toJson_iff :
    (∃ v, toJson levels item = .ok v) ↔ Modelled item ∧ item.depth ≤ levels := by
  constructor
  · rintro ⟨v, h⟩
    obtain rfl := toItem_of_toJson h
    rw [depth_toItem]
    exact ⟨modelled_iff_exists_toItem.2 ⟨v, proper_of_toJson h, rfl⟩, depth_le_of_toJson h⟩
  · rintro ⟨hmodelled, hdepth⟩
    obtain ⟨v, hv, rfl⟩ := modelled_iff_exists_toItem.1 hmodelled
    rw [depth_toItem] at hdepth
    exact ⟨v, toJson_toItem hv hdepth⟩

/-- **The items that are accepted are the JSON model.** An item is converted exactly if it is built
from null, booleans, texts, integers of 64 bits, finite doubles, arrays, and maps whose keys are
texts and all different, with at most 63 containers inside each other. What is then written for its
value is the item with the entries of every map in canonical order. The other way, the item that is
written for a value with unique keys, integers of 64 bits and finite doubles that passes the check
is converted to this value with the entries of every object in canonical order, which is equal to
it. -/
theorem accepted_items_are_the_json_model (item : Item) :
    ((∃ v, item.toEntryValue = .ok v) ↔ Modelled item ∧ item.depth ≤ 63) ∧
      (∀ v, item.toEntryValue = .ok v → Arranged item v.encodable) ∧
      ∀ v, Proper v → v.check = .ok () → ∃ read, v.encodable.toEntryValue = .ok read ∧
        Reordered v read ∧ Ordered read ∧ same v read = true := by
  refine ⟨exists_toJson_iff, fun v h => ?_, fun v hv hcheck => ?_⟩
  · have harranged := arranged_encodable (proper_of_toJson h)
    rwa [toItem_of_toJson h] at harranged
  · -- what is read is the canonical value, which nests as deep as the value itself
    have hreordered := reordered_canonical v
    have hdepth : v.canonical.depth ≤ 63 := hreordered.depth_eq ▸ check_eq_ok_iff.1 hcheck
    exact ⟨v.canonical, toJson_toItem (hreordered.proper hv) hdepth, hreordered,
      ordered_canonical hv, hreordered.same hv⟩

/-- The least integer and an object whose entries change places, both ways. -/
theorem accepted_items_are_the_json_model_nested :
    let inner : Entries := [("b", .integer (-9223372036854775808)), ("a", .double ⟨1⟩)]
    let v : Json := .array [.object inner]
    Proper v ∧ v.check = .ok () ∧ v.toItem.toEntryValue = .ok v ∧ Arranged v.toItem v.encodable ∧
      ∃ read, v.encodable.toEntryValue = .ok read ∧ Reordered v read ∧ Ordered read ∧
        same v read = true := by
  intro inner v
  have hv : Proper v := by decide
  have hdepth : v.depth ≤ 63 := by decide
  have haccepted := accepted_items_are_the_json_model v.toItem
  have hitem : v.toItem.toEntryValue = .ok v := toJson_toItem hv hdepth
  have hcheck := check_eq_ok_iff.2 hdepth
  exact ⟨hv, hcheck, hitem, haccepted.2.1 v hitem, haccepted.2.2 v hv hcheck⟩

end Cbor.Item

end Parcel
