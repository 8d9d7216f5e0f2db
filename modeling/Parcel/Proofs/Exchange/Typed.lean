import Parcel.Proofs.Exchange.Refusal
import Parcel.Proofs.Exchange.RoundTrip
import Parcel.Proofs.Json.Equality
import Parcel.Proofs.Metadata.Typed

/-!
# Typed values through a store

A typed value that is set under a key can be read at its type again. A store keeps the encoding of
the metadata, and what is read of it is the metadata in canonical order; so under the key there is
the canonical form of the value, and this is read as the same typed value. What else the payload
holds, and what the store went through before, makes no difference.

## Main definitions

* `Payload.Survives`: what happens to a typed value that is set, written and read back

## Main results

* `Entries.get?_canonical`: the value of a key in canonical order
* `Object.exists_stored_of_put`: what is stored by a transfer
* `Payload.survives_of_represents`: values that can be read back survive
* `Payload.typed_values_survive`: the types of values that do
-/

namespace Parcel

open Json

/-! ## The value of a key -/

/-- **The value of a key** in canonical order is the canonical form of its value. -/
theorem Entries.get?_canonical {m : Entries} {key : String} {value : Json} (hnodup : (keys m).Nodup)
    (h : get? m key = some value) : get? m.canonical key = some value.canonical := by
  have hkeys : (keys m.canonical).Nodup := by
    rw [canonical, (keys_sorted_perm _).nodup_iff, keys_canonicalEntries]
    exact hnodup
  refine lookup_eq_some_of_mem hkeys ?_
  rw [canonical, sorted, List.mem_mergeSort, canonicalEntries_eq_map]
  exact List.mem_map_of_mem (mem_of_get? h)

namespace Payload

variable {α : Type} [Storable α] {p : Payload} {key : String} {v : Json} {x : α}

/-- A value that can be read at a type is read. -/
theorem getAs_eq_ok (hget : p.metadata.get? key = some v) (hread : Storable.ofJson? v = some x) :
    p.getAs α key = .ok x := by
  rw [getAs, get, hget]
  simp only [hread]

end Payload

/-! ## What is stored by a transfer -/

variable {o : Object} {s s' : Store} {target : Option Handle} {h : Handle}

/-- **What is stored by a transfer** is the object, with names if it has some or took the place of
one that had. -/
theorem Object.exists_stored_of_put (hs : s.objects.WellFormed) (hp : o.payload.Lawful)
    (haddressable : Addressable (.object o.payload.metadata))
    (hput : (o.put target).outcome s = (.ok h, s')) :
    ∃ names, s'.object h = .ok (o.stored names) := by
  rcases Object.put_cases hs hp haddressable hput with ⟨old, -, hold, -, rfl⟩ | ⟨s₁, -, hi, rfl⟩
  · exact ⟨old.names, object_withObject_self hold _⟩
  · have hempty := (Store.object_insert hs hi).2 h
    rw [if_pos rfl] at hempty
    exact ⟨none, object_withObject_self hempty _⟩

/-! ## Typed values -/

namespace Payload

variable {p : Payload}

/-- **A typed value survives**: it can be set under the key, and then be read at its type. If the
changed payload is written to the store, under a new handle for which there is room or under any
live one, this succeeds, and the typed value can be read from what is read back, whatever the size
of the first buffer. Lengths fit 64 bits, as in memory. -/
def Survives {α : Type} [Storable α] (s : Store) (p : Payload) (typeName key : String)
    (datum : Datum) (x : α) : Prop :=
  ∃ old changed, p.set key ⟨typeName, datum⟩ = .ok (old, changed) ∧ changed.getAs α key = .ok x ∧
    (Addressable (.object changed.metadata) →
      ∀ target, (∀ error, ¬ (Object.data changed).Refused s target error) →
        ∃ h s', ((Object.data changed).put target).outcome s = (.ok h, s') ∧
          ∀ capacity, ∃ read, (fetch capacity h).outcome s' = (.ok read, s') ∧
            read.getAs α key = .ok x)

/-- **Values that can be read back survive**, if they do not nest too deep. -/
theorem survives_of_represents {α : Type} [Storable α] {levels : Nat} {datum : Datum} {v : Json}
    {x : α} (hs : s.objects.WellFormed) (hsize : s.size = s.liveHandles.length) (hp : p.Lawful)
    (h : Storable.Represents levels datum v x) (hlevels : levels ≤ maxDepth - 1)
    (typeName key : String) : Survives s p typeName key datum x := by
  have hset : p.set key ⟨typeName, datum⟩ = .ok (p.store key v) := by
    rw [set, h.toMetadata hlevels]
  have hget : (p.store key v).2.metadata.get? key = some v := by
    rw [store, Entries.get?_insert, if_pos rfl]
  have hlawful : (Object.data (p.store key v).2).payload.Lawful := hp.set hset
  refine ⟨_, _, hset, getAs_eq_ok hget h.read, ?_⟩
  intro haddressable target hrefused
  -- nothing that the payload holds makes the transfer fail, and only its encoding is kept
  obtain ⟨k, s', hput⟩ := Object.exists_outcome hs hsize hlawful haddressable hrefused
  obtain ⟨names, hstored⟩ := Object.exists_stored_of_put hs hlawful haddressable hput
  refine ⟨k, s', hput, ?_⟩
  intro capacity
  refine ⟨(Object.data (p.store key v).2).readBack, ?_, ?_⟩
  · rw [fetch_store hstored, Object.payload_stored hlawful haddressable]
  · -- what is read back is in canonical order
    have hcanonical := Entries.get?_canonical (proper_object.1 hlawful.proper).1 hget
    exact getAs_eq_ok hcanonical h.read_canonical

/-- **Typed values survive** being set, written to a store and read back, in every payload that can
be built, under every key, for every store that requests can lead to: unsigned integers of 8 and of
64 bits, signed ones of 64 bits, truth values, texts, characters, the value without content, finite
doubles with all their bits, and options, lists and tables of signed integers. A table may be listed
in any order when it is set. -/
theorem typed_values_survive {limit : Option Nat} {s₀ : Store} (hs : Store.ofLimit limit = .ok s₀)
    (requests : List Request) (hp : p.Built) (typeName key : String) :
    let s := (s₀.run requests).2
    (∀ n : UInt8, Survives s p typeName key (Storable.datum n) n) ∧
      (∀ n : Int64, Survives s p typeName key (Storable.datum n) n) ∧
      (∀ n : UInt64, Survives s p typeName key (Storable.datum n) n) ∧
      (∀ b : Bool, Survives s p typeName key (Storable.datum b) b) ∧
      (∀ text : String, Survives s p typeName key (Storable.datum text) text) ∧
      (∀ c : Char, Survives s p typeName key (Storable.datum c) c) ∧
      (Survives s p typeName key (Storable.datum ()) ()) ∧
      (∀ x : Double, x.isFinite = true → Survives s p typeName key (Storable.datum x) x) ∧
      (∀ n : Option Int64, Survives s p typeName key (Storable.datum n) n) ∧
      (∀ ns : List Int64, Survives s p typeName key (Storable.datum ns) ns) ∧
      ∀ (table : SortedTable Int64) (listing : List (String × Int64)), listing.Perm table.entries →
        Survives s p typeName key
          (.map (listing.map fun entry => (.text entry.1, Storable.datum entry.2))) table := by
  intro s
  -- what is known of the store is all that requests leave behind
  have hwf : s.objects.WellFormed := (Store.sound_run hs requests).advance.wellFormed
  have hsize : s.size = s.liveHandles.length := Store.size_eq_length_liveHandles hs requests
  have hsurvives {α : Type} [Storable α] {levels : Nat} {datum : Datum} {v : Json} {x : α}
      (h : Storable.Represents levels datum v x) (hlevels : levels ≤ 1) :
      Survives s p typeName key datum x :=
    survives_of_represents hwf hsize hp.lawful h (Nat.le_trans hlevels (by decide)) typeName key
  refine ⟨?_, ?_, ?_, ?_, ?_, ?_, ?_, ?_, ?_, ?_, ?_⟩
  · intro n
    exact hsurvives (Storable.represents_uint8 n) (Nat.zero_le 1)
  · intro n
    exact hsurvives (Storable.represents_int64 n) (Nat.zero_le 1)
  · intro n
    exact hsurvives (Storable.represents_uint64 n) (Nat.zero_le 1)
  · intro b
    exact hsurvives (Storable.represents_bool b) (Nat.zero_le 1)
  · intro text
    exact hsurvives (Storable.represents_string text) (Nat.zero_le 1)
  · intro c
    exact hsurvives (Storable.represents_char c) (Nat.zero_le 1)
  · exact hsurvives Storable.represents_unit (Nat.zero_le 1)
  · intro x hx
    exact hsurvives (Storable.represents_double hx) (Nat.zero_le 1)
  · intro n
    cases n with
    | none => exact hsurvives Storable.represents_none (Nat.zero_le 1)
    | some n => exact hsurvives ((Storable.represents_int64 n).present nofun) (Nat.zero_le 1)
  · intro ns
    exact hsurvives (Storable.represents_list fun n _ => Storable.represents_int64 n)
      (Nat.le_refl 1)
  · intro table listing hlisting
    let value (n : Int64) : Json := .integer n.toInt
    have hvalues : ∀ entry ∈ table.entries,
        Storable.Represents 0 (Storable.datum entry.2) (value entry.2) entry.2 := by
      intro entry _
      exact Storable.represents_int64 entry.2
    exact hsurvives (Storable.represents_table hlisting hvalues) (Nat.le_refl 1)

/-- A minus zero, and a table that is listed the other way round, are set in the place of a value
that is there. The table is written to a store that holds a command, and read back through a buffer
of 16 bytes. -/
theorem typed_values_survive_table :
    let p : Payload := ⟨[[7]], [("k", .null), ("other", .text "x")]⟩
    let s := (Store.empty.run [.allocateCommand "lamp" "switch"]).2
    let table : SortedTable Int64 := ⟨[("a", Int64.minValue), ("bb", 1)], by decide +kernel⟩
    let datum : Datum :=
      .map [(.text "bb", .integer 1), (.text "a", .integer Int64.minValue.toInt)]
    let changed : Payload := ⟨[[7]], [("k", .object [("bb", .integer 1),
      ("a", .integer Int64.minValue.toInt)]), ("other", .text "x")]⟩
    p.Built ∧ Survives s p "T" "k" (Storable.datum (Double.neg .zero)) (Double.neg .zero) ∧
      [("bb", 1), ("a", Int64.minValue)].Perm table.entries ∧
      p.set "k" ⟨"T", datum⟩ = .ok (some .null, changed) ∧
      ∃ h s', ((Object.data changed).put none).outcome s = (.ok h, s') ∧
        ∃ read, (fetch 16 h).outcome s' = (.ok read, s') ∧
          read.getAs (SortedTable Int64) "k" = .ok table := by
  intro p s table datum changed
  have hp : p.Built := Lawful.built (by decide)
  obtain ⟨-, -, -, -, -, -, -, hdouble, -, -, htable⟩ :=
    typed_values_survive Store.ofLimit_none [.allocateCommand "lamp" "switch"] hp "T" "k"
  have hperm : [("bb", 1), ("a", Int64.minValue)].Perm table.entries := .swap _ _ _
  have hset : p.set "k" ⟨"T", datum⟩ = .ok (some .null, changed) := by rfl
  obtain ⟨old, found, hfound, -, htransfer⟩ := htable table _ hperm
  obtain ⟨-, rfl⟩ := Prod.mk.inj (Except.ok.inj (hset.symm.trans hfound))
  have haddressable : Addressable (.object changed.metadata) := by decide
  have hroom : ∀ error, ¬ (Object.data changed).Refused s none error := by
    rintro error ⟨hfull⟩
    exact Store.not_full_of_lt rfl (by decide +kernel) error hfull
  obtain ⟨h, s', hput, hread⟩ := htransfer haddressable none hroom
  exact ⟨hp, hdouble _ (by decide), hperm, hset, h, s', hput, hread 16⟩

end Payload

end Parcel
