import Mathlib.Data.Finmap
import Parcel.Proofs.Table.History

/-!
# A table is a finite map

Seen from outside, a table is a finite map from its live handles to their objects. The map is
followed here beside the table, from the empty one on and never read off the table: all that it
takes from the table is the handle that a new object gets, or that it gets none. After every run the
table answers all questions as the map does.

## Main definitions

* `Objects`: finite maps from handles to objects
* `Operation.follow`, `Table.follow`: the finite map after an operation, and after a run
* `Table.Holds`: tables that answer all questions as a finite map does

## Main results

* `insert_eq_none_iff`: when a table has no room for an object
* `insert_holds`, `update_holds`, `remove_holds`: what operations do to the finite map
* `run_holds`: after a run the table holds the map that was followed
* `Holds.live_eq_length`: the objects are counted right
* `refines_finite_map`: every table that a run leads to, and every operation on it
-/

namespace Parcel

/-- Objects by handle. -/
abbrev Objects (α : Type) := Finmap fun _ : Handle => α

/-- The finite map after an operation for which the given handle was given out. -/
def Operation.follow {α : Type} (m : Objects α) : Operation α → Option Handle → Objects α
  | .insert object, some h => m.insert h object
  | .insert _, none => m
  | .update h object, _ => if h ∈ m then m.insert h object else m
  | .remove h, _ => m.erase h

namespace Table

variable {α : Type} {t u : Table α} {m : Objects α} {h k : Handle} {x : α}

/-- The finite map after a run of operations. -/
def follow (t : Table α) (m : Objects α) : List (Operation α) → Objects α
  | [] => m
  | operation :: rest =>
    let (issued, changed) := t.apply operation
    follow changed (operation.follow m issued) rest

/-- **Tables that hold a finite map**: they answer all questions as the map does, and the slots that
they use again are free to be used. -/
structure Holds (t : Table α) (m : Objects α) : Prop where
  /-- Each handle, live or not, has the object that it has in the map. -/
  get?_eq : ∀ h, t.get? h = m.lookup h
  /-- The entries are those of the map. -/
  mem_entries : ∀ h x, (h, x) ∈ t.entries ↔ m.lookup h = some x
  /-- The entries come in the order of their handles, each handle once. -/
  ascending : (t.entries.map Prod.fst).Pairwise (· < ·)
  /-- The number of objects is the size of the map. -/
  live_eq : t.live = m.keys.card
  /-- No slot waits twice to be used again. -/
  free_nodup : t.free.Nodup
  /-- The slots that wait to be used again are there, and vacant. -/
  vacant : ∀ i ∈ t.free, ∃ g, t.slots[i]? = some ⟨g, none⟩

/-! ## Entries in order -/

theorem handle_lt_handle {i j : Nat} (hij : i < j) (hj : j < slotBound) (g g' : UInt32) :
    handle i g < handle j g' := by
  have := g.toNat_lt
  rw [UInt64.lt_iff_toNat_lt, toNat_handle (Nat.lt_trans hij hj), toNat_handle hj]
  simp only [slotBound, UInt32.size] at *
  omega

theorem pairwise_zipIdx {β : Type} (l : List β) : l.zipIdx.Pairwise fun a b => a.2 < b.2 := by
  rw [← List.pairwise_map (R := (· < ·)), List.zipIdx_map_snd]
  exact List.pairwise_lt_range'

/-- The entries of a table come in the order of their handles. -/
theorem pairwise_entries (ht : t.WellFormed) : (t.entries.map Prod.fst).Pairwise (· < ·) := by
  rw [List.pairwise_map, entries, List.pairwise_filterMap]
  refine (pairwise_zipIdx t.slots.toList).imp_of_mem ?_
  rintro ⟨slot, i⟩ ⟨slot', j⟩ - hmem hij entry hentry entry' hentry'
  have hj : j < slotBound := by
    have := List.snd_lt_of_mem_zipIdx hmem
    have := ht.size_le
    simp at *
    omega
  obtain ⟨_, _, rfl⟩ := Option.map_eq_some_iff.1 hentry
  obtain ⟨_, _, rfl⟩ := Option.map_eq_some_iff.1 hentry'
  exact handle_lt_handle hij hj _ _

/-- Objects and their number decide whether a table holds a finite map. -/
theorem holds_of_get? (ht : t.WellFormed) (hget : ∀ h, t.get? h = m.lookup h)
    (hlive : t.live = m.keys.card) : t.Holds m where
  get?_eq := hget
  mem_entries h x := by rw [Table.mem_entries ht, hget]
  ascending := pairwise_entries ht
  live_eq := hlive
  free_nodup := ht.free_nodup
  vacant i hi := by
    obtain ⟨g, -, hat⟩ := ht.vacant_of_free i hi
    exact ⟨g, hat⟩

/-! ## Operations -/

theorem holds_empty : (empty : Table α).Holds ∅ :=
  holds_of_get? .empty (by simp) rfl

theorem lookup_insert_eq (m : Objects α) (h k : Handle) (x : α) :
    (m.insert h x).lookup k = if k = h then some x else m.lookup k := by
  by_cases hk : k = h
  · subst hk
    simp
  · rw [if_neg hk, Finmap.lookup_insert_of_ne _ hk]

theorem lookup_erase_eq (m : Objects α) (h k : Handle) :
    (m.erase h).lookup k = if k = h then none else m.lookup k := by
  by_cases hk : k = h
  · subst hk
    simp
  · rw [if_neg hk, Finmap.lookup_erase_ne hk]

theorem erase_of_lookup (hlookup : m.lookup h = none) : m.erase h = m := by
  refine Finmap.ext_lookup fun k => ?_
  rw [lookup_erase_eq]
  split
  · next hk => rw [hk, hlookup]
  · rfl

theorem keys_insert_eq (m : Objects α) (h : Handle) (x : α) :
    (m.insert h x).keys = Insert.insert h m.keys := by
  ext k
  simp [Finmap.mem_keys]

/-- **No room** for an object is left when every slot exists and none waits to be used again. -/
theorem insert_eq_none_iff (ht : t.WellFormed) :
    t.insert x = none ↔ t.free = [] ∧ t.slots.size = slotBound := by
  cases hfree : t.free with
  | nil =>
    have hsize := ht.size_le
    have hfull : t.insert x = none ↔ ¬ t.slots.size < slotBound := by simp [insert, hfree]
    rw [hfull]
    exact ⟨fun hnot => ⟨rfl, by omega⟩, fun heq => by omega⟩
  | cons i free =>
    obtain ⟨g, -, hat⟩ := ht.vacant_of_free i (by simp [hfree])
    simp [insert, hfree, hat]

/-- **A new object** is added to the map, under a handle that was not in it. -/
theorem insert_holds (ht : t.WellFormed) (hm : t.Holds m) (hi : t.insert x = some (h, u)) :
    h ∉ m ∧ u.Holds (m.insert h x) := by
  obtain ⟨hdead, hget⟩ := get?_insert ht hi
  have hnew : h ∉ m := by rw [← Finmap.lookup_eq_none, ← hm.get?_eq, hdead]
  refine ⟨hnew, holds_of_get? (ht.insert hi) ?_ ?_⟩
  · intro k
    rw [hget, lookup_insert_eq, hm.get?_eq]
  · have hlive : u.live = t.live + 1 := by
      rcases insert_cases ht hi with ⟨_, _, _, -, -, -, -, -, rfl⟩ | ⟨-, -, -, rfl⟩ <;> rfl
    rw [hlive, keys_insert_eq, Finset.card_insert_of_notMem (by rwa [Finmap.mem_keys]), hm.live_eq]

/-- **An update** replaces the object of a handle in the map, and does nothing to others. -/
theorem update_holds (ht : t.WellFormed) (hm : t.Holds m) (h : Handle) (x : α) :
    (t.update h x).Holds (if h ∈ m then m.insert h x else m) := by
  cases hget : t.get? h with
  | none =>
    have hnot : h ∉ m := by rw [← Finmap.lookup_eq_none, ← hm.get?_eq, hget]
    rwa [update_of_get? hget, if_neg hnot]
  | some old =>
    have hmem : h ∈ m := Finmap.mem_of_lookup_eq_some (hm.get?_eq h ▸ hget)
    rw [if_pos hmem]
    refine holds_of_get? (ht.update h x) ?_ ?_
    · intro k
      rw [get?_update, lookup_insert_eq, hget, hm.get?_eq]
      rfl
    · rw [update_of_live hget, keys_insert_eq, Finset.insert_eq_of_mem (by rwa [Finmap.mem_keys])]
      exact hm.live_eq

/-- **What is taken back** is what the map has under the handle, and it is erased there. -/
theorem remove_holds (ht : t.WellFormed) (hm : t.Holds m) (hr : t.remove h = some (x, u)) :
    m.lookup h = some x ∧ u.Holds (m.erase h) := by
  obtain ⟨hlive, hget⟩ := get?_remove hr
  have hlookup : m.lookup h = some x := hm.get?_eq h ▸ hlive
  refine ⟨hlookup, holds_of_get? (ht.remove hr) ?_ ?_⟩
  · intro k
    rw [hget, lookup_erase_eq, hm.get?_eq]
  · have hmem := Finmap.mem_keys.2 (Finmap.mem_of_lookup_eq_some hlookup)
    obtain ⟨-, rfl⟩ := remove_cases hr
    rw [Finmap.keys_erase, Finset.card_erase_of_mem hmem, ← hm.live_eq]

/-- **One operation** does to a table and to the map that it holds the same. -/
theorem apply_holds (ht : t.WellFormed) (hm : t.Holds m) (operation : Operation α) :
    (t.apply operation).2.Holds (operation.follow m (t.apply operation).1) := by
  cases operation with
  | insert object =>
    cases hi : t.insert object with
    | none => simpa [apply, hi, Operation.follow] using hm
    | some result => simpa [apply, hi, Operation.follow] using (insert_holds ht hm hi).2
  | update h object => exact update_holds ht hm h object
  | remove h =>
    cases hr : t.remove h with
    | none =>
      -- the handle is not in the map either, so nothing is erased there
      have hlookup : m.lookup h = none := by rw [← hm.get?_eq, get?_of_remove hr]
      simpa [apply, hr, Operation.follow, erase_of_lookup hlookup] using hm
    | some result => simpa [apply, hr, Operation.follow] using (remove_holds ht hm hr).2

/-- **A run** does to a table and to the map that it holds the same. -/
theorem run_holds (ht : t.WellFormed) (hm : t.Holds m) (operations : List (Operation α)) :
    (t.run operations).2.Holds (t.follow m operations) := by
  -- the map that was followed is held by the table after each operation, where the rest goes on
  induction operations generalizing t m with
  | nil => exact hm
  | cons operation rest ih =>
    exact ih (apply_advance ht operation).wellFormed (apply_holds ht hm operation)

/-- The number of objects is the number of entries. -/
theorem Holds.live_eq_length (hm : t.Holds m) : t.live = t.entries.length := by
  have hnodup : (t.entries.map Prod.fst).Nodup := hm.ascending.imp UInt64.ne_of_lt
  have hkeys : m.keys = (t.entries.map Prod.fst).toFinset := by
    ext h
    rw [Finmap.mem_keys, Finmap.mem_iff, List.mem_toFinset, List.mem_map]
    constructor
    · rintro ⟨x, hx⟩
      exact ⟨(h, x), (hm.mem_entries h x).2 hx, rfl⟩
    · rintro ⟨⟨h, x⟩, hmem, rfl⟩
      exact ⟨x, (hm.mem_entries h x).1 hmem⟩
  rw [hm.live_eq, hkeys, List.toFinset_card_of_nodup hnodup, List.length_map]

/-- **A table refines a finite map.** After every run from the empty table, it holds the finite map
that was followed along the run. A new object is then added to the map under a handle that was not
in it, unless every slot exists and none can be used again; an update replaces the object of a
handle in the map; and what is taken back is what the map has under the handle, which is erased
there. A table that gives something back counts one object at least. -/
theorem refines_finite_map (operations : List (Operation α)) :
    let t := ((empty : Table α).run operations).2
    let m := (empty : Table α).follow ∅ operations
    t.Holds m ∧
      (∀ x, match t.insert x with
        | some (h, u) => h ∉ m ∧ u.Holds (m.insert h x)
        | none => t.free = [] ∧ t.slots.size = slotBound) ∧
      (∀ h x, (t.update h x).Holds (if h ∈ m then m.insert h x else m)) ∧
      ∀ h, match t.remove h with
        | some (x, u) => m.lookup h = some x ∧ 0 < t.live ∧ u.Holds (m.erase h)
        | none => m.lookup h = none := by
  intro t m
  have ht : t.WellFormed := (run_advance .empty operations).wellFormed
  have hm : t.Holds m := run_holds .empty holds_empty operations
  refine ⟨hm, ?_, update_holds ht hm, ?_⟩
  · intro x
    split
    · next h u hi => exact insert_holds ht hm hi
    · next hi => exact (insert_eq_none_iff ht).1 hi
  · intro h
    split
    · next x u hr =>
      obtain ⟨hlookup, hu⟩ := remove_holds ht hm hr
      refine ⟨hlookup, ?_, hu⟩
      rw [hm.live_eq, Finset.card_pos]
      exact ⟨h, Finmap.mem_keys.2 (Finmap.mem_of_lookup_eq_some hlookup)⟩
    · next hr => rw [← hm.get?_eq, get?_of_remove hr]

end Table

end Parcel
