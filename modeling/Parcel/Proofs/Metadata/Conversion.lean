import Parcel.Metadata.Conversion
import Parcel.Proofs.Json.Depth
import Parcel.Proofs.Json.Parts

/-!
# Items and values

The item of a proper value is converted back to the value if the levels suffice for its depth.
Whatever is converted at all becomes a proper value of no more depth than there were levels.

## Main results

* `Json.toJson_toItem`: the item of a value is converted back
* `Item.proper_of_toJson`, `Item.depth_le_of_toJson`: what conversion makes sure of
* `Item.toJson_mono`: what is converted stays the same with more levels
* `Item.toJson_toItem_eq_ok_iff`: the values whose items are converted
-/

namespace Parcel

namespace Cbor.Item

/-- Induction with the items of an array and the values of a map as hypotheses. -/
theorem inductionOn {motive : Item → Prop} (item : Item)
    (null : motive .null) (bool : ∀ b, motive (.bool b)) (integer : ∀ n, motive (.integer n))
    (double : ∀ x, motive (.double x)) (text : ∀ s, motive (.text s))
    (bytes : ∀ b, motive (.bytes b))
    (tag : ∀ number content, motive content → motive (.tag number content))
    (array : ∀ items, (∀ item ∈ items, motive item) → motive (.array items))
    (map : ∀ entries, (∀ entry ∈ entries, motive entry.2) → motive (.map entries)) :
    motive item :=
  @Item.rec motive (fun items => ∀ item ∈ items, motive item)
    (fun entries => ∀ entry ∈ entries, motive entry.2) (fun entry => motive entry.2)
    null bool integer double text bytes tag array map
    (fun _ h => nomatch h)
    (fun _ _ hfirst hrest => List.forall_mem_cons.2 ⟨hfirst, hrest⟩)
    (fun _ h => nomatch h)
    (fun _ _ hfirst hrest => List.forall_mem_cons.2 ⟨hfirst, hrest⟩)
    (fun _ _ _ hvalue => hvalue) item

end Cbor.Item

namespace Json

open Cbor.Item

/-! ## From values to items and back -/

variable {levels : Nat}

theorem itemsToJson_toItems {items : List Json} (index : Nat)
    (h : ∀ item ∈ items, toJson levels item.toItem = .ok item) :
    itemsToJson levels index (toItems items) = .ok items := by
  induction items generalizing index with
  | nil => rfl
  | cons item rest ih =>
    rw [List.forall_mem_cons] at h
    rw [toItems, itemsToJson, h.1]
    simp [ih (index + 1) h.2, Except.map]

/-- No key of a proper object is refused as repeated, whatever was seen before it. -/
theorem entriesToJson_toItemEntries {entries : Entries} {seen : List String}
    (hnodup : (Entries.keys entries).Nodup) (hseen : ∀ key ∈ Entries.keys entries, key ∉ seen)
    (h : ∀ entry ∈ entries, toJson levels entry.2.toItem = .ok entry.2) :
    entriesToJson levels seen (toItemEntries entries) = .ok entries := by
  induction entries generalizing seen with
  | nil => rfl
  | cons entry rest ih =>
    obtain ⟨key, value⟩ := entry
    rw [Entries.keys_cons, List.nodup_cons] at hnodup
    rw [Entries.keys_cons, List.forall_mem_cons] at hseen
    rw [List.forall_mem_cons] at h
    -- the keys behind the first are new to those seen before, and to the first
    have hrest : ∀ other ∈ Entries.keys rest, other ∉ key :: seen := by
      intro other hmem
      rw [List.mem_cons, not_or]
      exact ⟨fun heq => hnodup.1 (heq ▸ hmem), hseen.2 other hmem⟩
    rw [toItemEntries, entriesToJson, h.1]
    simp [hseen.1, ih hnodup.2 hrest h.2, Except.map]

/-- **The item of a value is converted back** to the value, if the levels suffice for its depth. -/
theorem toJson_toItem {v : Json} (hproper : Proper v) (hdepth : v.depth ≤ levels) :
    v.toItem.toJson levels = .ok v := by
  induction v using inductionOn generalizing levels with
  | integer n =>
    rw [toItem, toJson, if_pos (proper_integer.1 hproper)]
  | double x =>
    rw [toItem, toJson, if_pos (proper_double.1 hproper)]
  | array items ih =>
    cases levels with
    | zero => exact absurd hdepth not_depth_array_le_zero
    | succ levels =>
      have hitems : itemsToJson levels 0 (toItems items) = .ok items :=
        itemsToJson_toItems 0 fun item hmem =>
          ih item hmem (proper_array.1 hproper item hmem) (depth_array_le_succ.1 hdepth item hmem)
      rw [toItem, toJson, hitems]
      rfl
  | object entries ih =>
    cases levels with
    | zero => exact absurd hdepth not_depth_object_le_zero
    | succ levels =>
      obtain ⟨hnodup, hinside⟩ := proper_object.1 hproper
      have hentries : entriesToJson levels [] (toItemEntries entries) = .ok entries :=
        entriesToJson_toItemEntries hnodup (fun _ _ => List.not_mem_nil) fun entry hmem =>
          ih entry hmem (hinside entry hmem) (depth_object_le_succ.1 hdepth entry hmem)
      rw [toItem, toJson, hentries]
      rfl
  | _ => rfl

end Json

namespace Cbor.Item

open Json

/-! ## From items to values -/

variable {levels : Nat} {item : Item} {items : List Item} {entries : List (Item × Item)} {v : Json}

theorem exists_of_map_eq_ok {ε α β : Type} {f : α → β} {result : Except ε α} {b : β}
    (h : result.map f = .ok b) : ∃ a, result = .ok a ∧ f a = b := by
  cases result with
  | error e => contradiction
  | ok a => exact ⟨a, rfl, Except.ok.inj h⟩

/-! ### Steps of the conversion -/

theorem toJson_integer_eq_ok {n : Int} (h : toJson levels (.integer n) = .ok v) :
    isIntegerInRange n = true ∧ v = .integer n := by
  rw [toJson] at h
  split at h
  · next hrange => exact ⟨hrange, (Except.ok.inj h).symm⟩
  · contradiction

theorem toJson_double_eq_ok {x : Double} (h : toJson levels (.double x) = .ok v) :
    x.isFinite = true ∧ v = .double x := by
  rw [toJson] at h
  split at h
  · next hfinite => exact ⟨hfinite, (Except.ok.inj h).symm⟩
  · contradiction

theorem toJson_array_eq_ok (h : toJson levels (.array items) = .ok v) :
    ∃ inner values, levels = inner + 1 ∧ itemsToJson inner 0 items = .ok values ∧
      v = .array values := by
  rw [toJson.eq_def] at h
  cases levels with
  | zero => contradiction
  | succ inner =>
    obtain ⟨values, hvalues, rfl⟩ := exists_of_map_eq_ok h
    exact ⟨inner, values, rfl, hvalues, rfl⟩

theorem toJson_map_eq_ok (h : toJson levels (.map entries) = .ok v) :
    ∃ inner m, levels = inner + 1 ∧ entriesToJson inner [] entries = .ok m ∧ v = .object m := by
  rw [toJson.eq_def] at h
  cases levels with
  | zero => contradiction
  | succ inner =>
    obtain ⟨m, hm, rfl⟩ := exists_of_map_eq_ok h
    exact ⟨inner, m, rfl, hm, rfl⟩

theorem itemsToJson_cons_eq_ok {index : Nat} {values : List Json}
    (h : itemsToJson levels index (item :: items) = .ok values) :
    ∃ value others, toJson levels item = .ok value ∧
      itemsToJson levels (index + 1) items = .ok others ∧ values = value :: others := by
  rw [itemsToJson] at h
  split at h
  · contradiction
  · next value hvalue =>
    obtain ⟨others, hothers, rfl⟩ := exists_of_map_eq_ok h
    exact ⟨value, others, hvalue, hothers, rfl⟩

theorem entriesToJson_cons_eq_ok {seen : List String} {key : Item} {m : Entries}
    (h : entriesToJson levels seen ((key, item) :: entries) = .ok m) :
    ∃ name value others, key = .text name ∧ toJson levels item = .ok value ∧ name ∉ seen ∧
      entriesToJson levels (name :: seen) entries = .ok others ∧ m = (name, value) :: others := by
  cases key with
  | text name =>
    rw [entriesToJson] at h
    split at h
    · contradiction
    · next value hvalue =>
      split at h
      · contradiction
      · next hnew =>
        obtain ⟨others, hothers, rfl⟩ := exists_of_map_eq_ok h
        exact ⟨name, value, others, rfl, hvalue, hnew, hothers, rfl⟩
  | _ => simp [entriesToJson] at h

/-! ### What conversion makes sure of -/

theorem exists_of_itemsToJson {index : Nat} {values : List Json}
    (h : itemsToJson levels index items = .ok values) :
    ∀ value ∈ values, ∃ item ∈ items, toJson levels item = .ok value := by
  induction items generalizing index values with
  | nil =>
    cases h
    simp
  | cons item rest ih =>
    obtain ⟨value, others, hvalue, hothers, rfl⟩ := itemsToJson_cons_eq_ok h
    refine List.forall_mem_cons.2 ⟨⟨item, List.mem_cons_self, hvalue⟩, fun value hmem => ?_⟩
    obtain ⟨item, hitem, hvalue⟩ := ih hothers value hmem
    exact ⟨item, List.mem_cons_of_mem _ hitem, hvalue⟩

/-- The converted entries of a map have new keys, all different, and converted values. -/
theorem exists_of_entriesToJson {seen : List String} {m : Entries}
    (h : entriesToJson levels seen entries = .ok m) :
    (Entries.keys m).Nodup ∧ (∀ key ∈ Entries.keys m, key ∉ seen) ∧
      ∀ entry ∈ m, ∃ item ∈ entries.map Prod.snd, toJson levels item = .ok entry.2 := by
  induction entries generalizing seen m with
  | nil =>
    cases h
    simp
  | cons entry rest ih =>
    obtain ⟨key, item⟩ := entry
    obtain ⟨name, value, others, rfl, hvalue, hseen, hothers, rfl⟩ := entriesToJson_cons_eq_ok h
    -- the keys behind the first are new to it, since it was seen before them
    obtain ⟨hnodup, hnew, hvalues⟩ := ih hothers
    refine ⟨?_, ?_, ?_⟩
    · rw [Entries.keys_cons, List.nodup_cons]
      exact ⟨fun hmem => hnew name hmem List.mem_cons_self, hnodup⟩
    · rw [Entries.keys_cons, List.forall_mem_cons]
      exact ⟨hseen, fun other hmem hother => hnew other hmem (List.mem_cons_of_mem _ hother)⟩
    · refine List.forall_mem_cons.2 ⟨⟨item, List.mem_cons_self, hvalue⟩, ?_⟩
      intro entry hmem
      obtain ⟨item, hitem, hvalue⟩ := hvalues entry hmem
      exact ⟨item, List.mem_cons_of_mem _ hitem, hvalue⟩

/-- The items that are converted to an array or object lie one level further down. -/
theorem proper_and_depth_le_of_toJson (h : toJson levels item = .ok v) :
    Proper v ∧ v.depth ≤ levels := by
  -- ranges, finiteness and keys are checked where they occur, and each container takes a level away
  induction item using inductionOn generalizing levels v with
  | integer n =>
    obtain ⟨hrange, rfl⟩ := toJson_integer_eq_ok h
    exact ⟨proper_integer.2 hrange, Nat.zero_le _⟩
  | double x =>
    obtain ⟨hfinite, rfl⟩ := toJson_double_eq_ok h
    exact ⟨proper_double.2 hfinite, Nat.zero_le _⟩
  | array items ih =>
    obtain ⟨levels, values, rfl, hvalues, rfl⟩ := toJson_array_eq_ok h
    have hinside : ∀ value ∈ values, Proper value ∧ value.depth ≤ levels := by
      intro value hmem
      obtain ⟨item, hitem, hvalue⟩ := exists_of_itemsToJson hvalues value hmem
      exact ih item hitem hvalue
    exact ⟨proper_array.2 fun value hmem => (hinside value hmem).1,
      depth_array_le_succ.2 fun value hmem => (hinside value hmem).2⟩
  | map entries ih =>
    obtain ⟨levels, m, rfl, hm, rfl⟩ := toJson_map_eq_ok h
    obtain ⟨hnodup, -, hvalues⟩ := exists_of_entriesToJson hm
    have hinside : ∀ entry ∈ m, Proper entry.2 ∧ entry.2.depth ≤ levels := by
      intro entry hmem
      obtain ⟨item, hitem, hvalue⟩ := hvalues entry hmem
      obtain ⟨entry', hentry, rfl⟩ := List.mem_map.1 hitem
      exact ih entry' hentry hvalue
    exact ⟨proper_object.2 ⟨hnodup, fun entry hmem => (hinside entry hmem).1⟩,
      depth_object_le_succ.2 fun entry hmem => (hinside entry hmem).2⟩
  | bytes b => simp [toJson] at h
  | tag number content _ => simp [toJson] at h
  | _ =>
    cases h
    simp [depth]

/-- **What is converted is proper**: its keys are unique, and its numbers are in range. -/
theorem proper_of_toJson (h : toJson levels item = .ok v) : Proper v :=
  (proper_and_depth_le_of_toJson h).1

/-- **What is converted keeps the levels.** -/
theorem depth_le_of_toJson (h : toJson levels item = .ok v) : v.depth ≤ levels :=
  (proper_and_depth_le_of_toJson h).2

/-! ## More levels -/

variable {levels' : Nat}

theorem itemsToJson_mono {index : Nat} {values : List Json}
    (h : ∀ item ∈ items, ∀ v, toJson levels item = .ok v → toJson levels' item = .ok v)
    (hvalues : itemsToJson levels index items = .ok values) :
    itemsToJson levels' index items = .ok values := by
  induction items generalizing index values with
  | nil => exact hvalues
  | cons item rest ih =>
    rw [List.forall_mem_cons] at h
    obtain ⟨value, others, hvalue, hothers, rfl⟩ := itemsToJson_cons_eq_ok hvalues
    rw [itemsToJson, h.1 value hvalue, ih h.2 hothers]
    rfl

theorem entriesToJson_mono {seen : List String} {m : Entries}
    (h : ∀ entry ∈ entries, ∀ v, toJson levels entry.2 = .ok v → toJson levels' entry.2 = .ok v)
    (hm : entriesToJson levels seen entries = .ok m) :
    entriesToJson levels' seen entries = .ok m := by
  induction entries generalizing seen m with
  | nil => exact hm
  | cons entry rest ih =>
    obtain ⟨key, item⟩ := entry
    rw [List.forall_mem_cons] at h
    obtain ⟨name, value, others, rfl, hvalue, hnew, hothers, rfl⟩ := entriesToJson_cons_eq_ok hm
    simp only [entriesToJson, h.1 value hvalue, if_neg hnew, ih h.2 hothers]
    rfl

/-- **More levels change nothing** about an item that is converted. -/
theorem toJson_mono (hle : levels ≤ levels') (h : toJson levels item = .ok v) :
    toJson levels' item = .ok v := by
  induction item using inductionOn generalizing levels levels' v with
  | array items ih =>
    obtain ⟨levels, values, rfl, hvalues, rfl⟩ := toJson_array_eq_ok h
    obtain ⟨levels', rfl⟩ : ∃ n, levels' = n + 1 := ⟨levels' - 1, by omega⟩
    have hmono : itemsToJson levels' 0 items = .ok values :=
      itemsToJson_mono (fun item hmem v => ih item hmem (by omega)) hvalues
    rw [toJson, hmono]
    rfl
  | map entries ih =>
    obtain ⟨levels, m, rfl, hm, rfl⟩ := toJson_map_eq_ok h
    obtain ⟨levels', rfl⟩ : ∃ n, levels' = n + 1 := ⟨levels' - 1, by omega⟩
    have hmono : entriesToJson levels' [] entries = .ok m :=
      entriesToJson_mono (fun entry hmem v => ih entry hmem (by omega)) hm
    rw [toJson, hmono]
    rfl
  | _ =>
    -- no level is used up outside of arrays and maps
    rw [toJson] at h ⊢
    exact h

/-- **The item of a value is converted exactly if the levels suffice** for its depth, and then back
to the value. -/
theorem toJson_toItem_eq_ok_iff {w : Json} (hproper : Proper v) :
    v.toItem.toJson levels = .ok w ↔ v.depth ≤ levels ∧ w = v := by
  constructor
  · intro h
    -- at levels that suffice in any case there is one result
    have hmax := toJson_mono (Nat.le_max_left levels v.depth) h
    rw [toJson_toItem hproper (Nat.le_max_right levels v.depth), Except.ok.injEq] at hmax
    subst hmax
    exact ⟨depth_le_of_toJson h, rfl⟩
  · rintro ⟨hdepth, rfl⟩
    exact toJson_toItem hproper hdepth

end Cbor.Item

end Parcel
