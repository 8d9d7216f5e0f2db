import Parcel.Cbor.Item
import Parcel.Json.Depth

/-!
# Properties of all parts of a value

Most laws about metadata speak of a value and everything inside it: keys are unique in every object,
integers keep to 64 bits, doubles are finite. Such a property is given for one value and then asked
of all parts.

## Main definitions

* `Json.Every p`: the property `p` holds of a value and of all values inside it, which is decided
  part by part
* `Json.Proper`: unique keys, integers in range and finite doubles, at every level
* `Json.Addressable`: texts, arrays and objects whose lengths fit 64 bits, at every level

## Main results

* `proper_insert`, `proper_erase`: changes of an object that keep it proper
-/

namespace Parcel.Json

variable {p : Json → Prop} {v : Json} {items : List Json} {entries : Entries}

/-- A property of a value and of all values inside it. -/
inductive Every (p : Json → Prop) : Json → Prop
  | intro {v : Json} (here : p v) (inside : ∀ child ∈ v.children, Every p child) : Every p v

theorem every_iff : Every p v ↔ p v ∧ ∀ child ∈ v.children, Every p child :=
  ⟨fun ⟨here, inside⟩ => ⟨here, inside⟩, fun ⟨here, inside⟩ => ⟨here, inside⟩⟩

theorem Every.imp {q : Json → Prop} (hpq : ∀ v, p v → q v) (h : Every p v) : Every q v := by
  induction h with
  | intro here _ ih => exact ⟨hpq _ here, ih⟩

theorem Every.and {q : Json → Prop} (hp : Every p v) (hq : Every q v) :
    Every (fun v => p v ∧ q v) v := by
  induction hp with
  | intro here _ ih =>
    obtain ⟨here', inside'⟩ := every_iff.1 hq
    exact ⟨⟨here, here'⟩, fun child hmem => ih child hmem (inside' child hmem)⟩

theorem every_of_not_isContainer (hv : v.isContainer = false) : Every p v ↔ p v := by
  rw [every_iff]
  cases v <;> simp_all [isContainer, children]

theorem every_array : Every p (.array items) ↔ p (.array items) ∧ ∀ item ∈ items, Every p item :=
  every_iff

theorem every_object :
    Every p (.object entries) ↔ p (.object entries) ∧ ∀ entry ∈ entries, Every p entry.2 :=
  every_iff.trans (and_congr_right fun _ => List.forall_mem_map)

section Decidable

variable (p) [DecidablePred p]

mutual

/-- Whether a property holds of all parts of a value, found out part by part. -/
def decidableEvery : (v : Json) → Decidable (Every p v)
  | .null => decidable_of_iff _ (every_of_not_isContainer rfl).symm
  | .bool _ => decidable_of_iff _ (every_of_not_isContainer rfl).symm
  | .integer _ => decidable_of_iff _ (every_of_not_isContainer rfl).symm
  | .double _ => decidable_of_iff _ (every_of_not_isContainer rfl).symm
  | .text _ => decidable_of_iff _ (every_of_not_isContainer rfl).symm
  | .array items =>
    have := decidableEveryItem items
    decidable_of_iff _ every_array.symm
  | .object entries =>
    have := decidableEveryEntry entries
    decidable_of_iff _ every_object.symm

/-- The same for all items of an array. -/
def decidableEveryItem : (items : List Json) → Decidable (∀ item ∈ items, Every p item)
  | [] => isTrue nofun
  | item :: rest =>
    have := decidableEvery item
    have := decidableEveryItem rest
    decidable_of_iff _ List.forall_mem_cons.symm

/-- The same for the values of all entries of an object. -/
def decidableEveryEntry :
    (entries : List (String × Json)) → Decidable (∀ entry ∈ entries, Every p entry.2)
  | [] => isTrue nofun
  | (_, value) :: rest =>
    have := decidableEvery value
    have := decidableEveryEntry rest
    decidable_of_iff _ List.forall_mem_cons.symm

end

instance : DecidablePred (Every p) := decidableEvery p

end Decidable

/-! ## Proper values -/

/-- Unique keys, an integer in range, or a finite double. -/
def ProperHere : Json → Prop
  | .integer n => isIntegerInRange n = true
  | .double x => x.isFinite = true
  | .object entries => (Entries.keys entries).Nodup
  | _ => True

instance : DecidablePred ProperHere
  | .integer n => inferInstanceAs (Decidable (isIntegerInRange n = true))
  | .double x => inferInstanceAs (Decidable (x.isFinite = true))
  | .object entries => inferInstanceAs (Decidable (Entries.keys entries).Nodup)
  | .null | .bool _ | .text _ | .array _ => isTrue trivial

/-- **Proper values**: keys are unique in every object, integers are in range, and doubles are
finite. -/
abbrev Proper : Json → Prop := Every ProperHere

@[simp] theorem proper_null : Proper .null := every_iff.2 ⟨trivial, by simp [children]⟩

@[simp] theorem proper_bool (b : Bool) : Proper (.bool b) :=
  every_iff.2 ⟨trivial, by simp [children]⟩

@[simp] theorem proper_text (s : String) : Proper (.text s) :=
  every_iff.2 ⟨trivial, by simp [children]⟩

@[simp] theorem proper_integer {n : Int} : Proper (.integer n) ↔ isIntegerInRange n = true :=
  every_of_not_isContainer rfl

@[simp] theorem proper_double {x : Double} : Proper (.double x) ↔ x.isFinite = true :=
  every_of_not_isContainer rfl

theorem proper_array : Proper (.array items) ↔ ∀ item ∈ items, Proper item :=
  every_array.trans (and_iff_right trivial)

theorem proper_object : Proper (.object entries) ↔
    (Entries.keys entries).Nodup ∧ ∀ entry ∈ entries, Proper entry.2 :=
  every_object

@[simp] theorem proper_object_nil : Proper (.object []) :=
  proper_object.2 ⟨List.nodup_nil, by simp⟩

theorem mem_insert {key : String} {value : Json} {entry : String × Json}
    (hmem : entry ∈ Entries.insert entries key value) :
    entry = (key, value) ∨ entry ∈ entries := by
  induction entries with
  | nil => simpa [Entries.insert] using hmem
  | cons first rest ih =>
    obtain ⟨other, old⟩ := first
    by_cases hkey : other = key
    · simp only [Entries.insert, hkey, if_true, List.mem_cons] at hmem
      exact hmem.imp_right (List.mem_cons_of_mem _)
    · simp only [Entries.insert, hkey, if_false, List.mem_cons] at hmem
      rcases hmem with rfl | hmem
      · exact .inr List.mem_cons_self
      · exact (ih hmem).imp_right (List.mem_cons_of_mem _)

theorem proper_insert {key : String} {value : Json} (hentries : Proper (.object entries))
    (hvalue : Proper value) : Proper (.object (Entries.insert entries key value)) := by
  rw [proper_object] at *
  refine ⟨?_, fun entry hmem => ?_⟩
  · rw [Entries.keys_insert]
    split
    · exact hentries.1
    · next hnew =>
      -- a key that goes to the end was not there before
      refine List.nodup_append.2 ⟨hentries.1, by simp, ?_⟩
      rintro a ha b hb rfl
      exact hnew (List.mem_singleton.1 hb ▸ ha)
  · rcases mem_insert hmem with rfl | hmem
    · exact hvalue
    · exact hentries.2 entry hmem

theorem proper_erase {key : String} (hentries : Proper (.object entries)) :
    Proper (.object (Entries.erase entries key)) := by
  rw [proper_object] at *
  exact ⟨hentries.1.sublist (List.filter_sublist.map _),
    fun entry hmem => hentries.2 entry (List.mem_filter.1 hmem).1⟩

/-! ## Addressable values -/

/-- A length that fits 64 bits. -/
def AddressableHere : Json → Prop
  | .text s => s.utf8ByteSize < Cbor.Item.argumentBound
  | .array items => items.length < Cbor.Item.argumentBound
  | .object entries => entries.length < Cbor.Item.argumentBound ∧
    ∀ key ∈ Entries.keys entries, key.utf8ByteSize < Cbor.Item.argumentBound
  | _ => True

instance : DecidablePred AddressableHere
  | .text s => inferInstanceAs (Decidable (s.utf8ByteSize < Cbor.Item.argumentBound))
  | .array items => inferInstanceAs (Decidable (items.length < Cbor.Item.argumentBound))
  | .object entries =>
    inferInstanceAs (Decidable (entries.length < Cbor.Item.argumentBound ∧
      ∀ key ∈ Entries.keys entries, key.utf8ByteSize < Cbor.Item.argumentBound))
  | .null | .bool _ | .integer _ | .double _ => isTrue trivial

/-- **Addressable values**: every text, array and object has a length that fits 64 bits, as all that
lies in a 64-bit memory does. -/
abbrev Addressable : Json → Prop := Every AddressableHere

@[simp] theorem addressable_null : Addressable .null :=
  (every_of_not_isContainer rfl).2 trivial

@[simp] theorem addressable_integer (n : Int) : Addressable (.integer n) :=
  (every_of_not_isContainer rfl).2 trivial

@[simp] theorem addressable_double (x : Double) : Addressable (.double x) :=
  (every_of_not_isContainer rfl).2 trivial

theorem addressable_text {s : String} :
    Addressable (.text s) ↔ s.utf8ByteSize < Cbor.Item.argumentBound :=
  every_of_not_isContainer rfl

theorem addressable_array : Addressable (.array items) ↔
    items.length < Cbor.Item.argumentBound ∧ ∀ item ∈ items, Addressable item :=
  every_array

theorem addressable_object : Addressable (.object entries) ↔
    (entries.length < Cbor.Item.argumentBound ∧
      ∀ key ∈ Entries.keys entries, key.utf8ByteSize < Cbor.Item.argumentBound) ∧
    ∀ entry ∈ entries, Addressable entry.2 :=
  every_object

end Parcel.Json
