import Parcel.Store.Table

/-!
# Lookup in a table of objects

A handle is the pair of a slot and a generation, and it is live exactly when the slot is occupied at
that generation. In a well-formed table the slots that wait to be used again are vacant, so each
operation changes the object of one handle at most.

## Main definitions

* `Table.WellFormed`: the slots fit the handles, and the slots to be used again are vacant

## Main results

* `get?_eq_some_iff`: the live handles are those of the occupied slots
* `WellFormed.insert`, `WellFormed.update`, `WellFormed.remove`: every operation keeps a table
  well formed
* `get?_insert`, `get?_update`, `get?_remove`: what an operation does to the object of each handle
* `mem_entries`: the listed entries are the live handles with their objects
* `run_insertInPlace`, `run_removeInPlace`: the operations that are made write by write
-/

namespace Parcel.Table

variable {α : Type} {t u : Table α} {h k : Handle} {x y : α}

/-! ## Handles as pairs -/

theorem index_lt (h : Handle) : index h < slotBound := by
  have := h.toNat_lt
  simp only [index, slotBound, UInt32.size] at *
  omega

theorem toNat_handle {i : Nat} (hi : i < slotBound) (g : UInt32) :
    (handle i g).toNat = i * slotBound + g.toNat := by
  have := g.toNat_lt
  simp only [handle, slotBound, UInt32.size] at *
  rw [UInt64.toNat_ofNat', Nat.mod_eq_of_lt]
  omega

theorem index_handle {i : Nat} (hi : i < slotBound) (g : UInt32) : index (handle i g) = i := by
  have := g.toNat_lt
  rw [index, toNat_handle hi]
  simp only [slotBound, UInt32.size] at *
  omega

theorem generation_handle {i : Nat} (hi : i < slotBound) (g : UInt32) :
    generation (handle i g) = g := by
  have := g.toNat_lt
  rw [generation, toNat_handle hi]
  apply UInt32.toNat_inj.1
  simp only [slotBound, UInt32.size, UInt32.toNat_ofNat'] at *
  omega

/-- A handle is its slot and its generation. -/
theorem eq_iff_index_generation : h = k ↔ index h = index k ∧ generation h = generation k := by
  constructor
  · rintro rfl
    exact ⟨rfl, rfl⟩
  rintro ⟨hi, hg⟩
  have hg := congrArg UInt32.toNat hg
  apply UInt64.toNat_inj.1
  simp only [index, generation, slotBound, UInt32.size, UInt32.toNat_ofNat'] at *
  omega

theorem eq_handle_iff {i : Nat} (hi : i < slotBound) {g : UInt32} :
    k = handle i g ↔ index k = i ∧ generation k = g := by
  rw [eq_iff_index_generation, index_handle hi, generation_handle hi]

/-! ## Live handles -/

/-- The object of a handle is that of its slot, if the slot is at the handle's generation. -/
theorem get?_of_slot {slot : Slot α} (hat : t.slots[index h]? = some slot) :
    t.get? h = if slot.generation = generation h then slot.content else none := by
  by_cases hg : slot.generation = generation h <;> simp [get?, slot?, hat, hg, Option.filter]

/-- Only the slot of a handle decides about its object. -/
theorem get?_congr (hat : u.slots[index h]? = t.slots[index h]?) : u.get? h = t.get? h := by
  rw [get?, slot?, hat, get?, slot?]

/-- **Live handles** are those whose slot is occupied at their generation. -/
theorem get?_eq_some_iff :
    t.get? h = some x ↔ t.slots[index h]? = some ⟨generation h, some x⟩ := by
  constructor
  · intro hget
    cases hat : t.slots[index h]? with
    | none => simp [get?, slot?, hat] at hget
    | some slot =>
      rw [get?_of_slot hat, Option.ite_none_right_eq_some] at hget
      rw [← hget.1, ← hget.2]
  · intro hat
    rw [get?_of_slot hat, if_pos rfl]

theorem index_lt_size_of_get? (hget : t.get? h = some x) : index h < t.slots.size :=
  (Array.getElem?_eq_some_iff.1 (get?_eq_some_iff.1 hget)).1

/-- The objects of a table in which one slot was overwritten. -/
theorem get?_setSlot {i : Nat} (hi : i < t.slots.size) (slot : Slot α) (free : List Nat)
    (live : Nat) (k : Handle) :
    get? ⟨t.slots.setIfInBounds i slot, free, live⟩ k =
      if index k = i then if slot.generation = generation k then slot.content else none
      else t.get? k := by
  split
  · next hindex =>
    subst hindex
    exact get?_of_slot (Array.getElem?_setIfInBounds_self_of_lt hi)
  · next hindex => exact get?_congr (Array.getElem?_setIfInBounds_ne (Ne.symm hindex))

/-- The objects of a table with one more slot. -/
theorem get?_pushSlot (t : Table α) (slot : Slot α) (free : List Nat) (live : Nat) (k : Handle) :
    get? ⟨t.slots.push slot, free, live⟩ k =
      if index k = t.slots.size then if slot.generation = generation k then slot.content else none
      else t.get? k := by
  split
  · next hindex => exact get?_of_slot (by rw [hindex, Array.getElem?_push_size])
  · next hindex => exact get?_congr (by simp [Array.getElem?_push, hindex])

/-! ## Well-formed tables -/

/-- **Well-formed tables**: no slot lies beyond those that handles can name, an occupied slot has
generations left, and the slots to be used again are vacant, have generations left and are listed
once. -/
structure WellFormed (t : Table α) : Prop where
  size_le : t.slots.size ≤ slotBound
  generation_ne_zero : ∀ (i : Nat) (g : UInt32) (x : α), t.slots[i]? = some ⟨g, some x⟩ → g ≠ 0
  free_nodup : t.free.Nodup
  vacant_of_free : ∀ i ∈ t.free, ∃ g : UInt32, g ≠ 0 ∧ t.slots[i]? = some ⟨g, none⟩

theorem WellFormed.empty : (Table.empty : Table α).WellFormed where
  size_le := Nat.zero_le _
  generation_ne_zero := by simp [Table.empty]
  free_nodup := List.nodup_nil
  vacant_of_free := by simp [Table.empty]

/-- **The listed entries** are the live handles with their objects. -/
theorem mem_entries (ht : t.WellFormed) : (h, x) ∈ t.entries ↔ t.get? h = some x := by
  simp only [entries, List.mem_filterMap, get?_eq_some_iff]
  constructor
  · rintro ⟨⟨⟨g, content⟩, i⟩, hmem, heq⟩
    obtain ⟨object, hcontent, heq⟩ := Option.map_eq_some_iff.1 heq
    obtain ⟨rfl, rfl⟩ := Prod.mk.inj heq
    have hat : t.slots[i]? = some ⟨g, content⟩ := by
      simpa [List.mem_zipIdx_iff_getElem?] using hmem
    have hlt := Nat.lt_of_lt_of_le (Array.getElem?_eq_some_iff.1 hat).1 ht.size_le
    rw [index_handle hlt, generation_handle hlt, hat]
    exact congrArg some (congrArg (Slot.mk g) hcontent)
  · intro hat
    refine ⟨(⟨generation h, some x⟩, index h), ?_, ?_⟩
    · simpa [List.mem_zipIdx_iff_getElem?] using hat
    · have hh : h = handle (index h) (generation h) := (eq_handle_iff (index_lt h)).2 ⟨rfl, rfl⟩
      simp [← hh]

theorem slot?_of_live (hget : t.get? h = some x) : t.slot? h = some ⟨generation h, some x⟩ := by
  simp [slot?, get?_eq_some_iff.1 hget]

/-- A new object goes to a vacant slot that waits to be used again, or to a slot of its own. -/
theorem insert_cases (ht : t.WellFormed) (hi : t.insert x = some (h, u)) :
    (∃ i g free, t.free = i :: free ∧ i < slotBound ∧ g ≠ 0 ∧ t.slots[i]? = some ⟨g, none⟩ ∧
      h = handle i g ∧ u = ⟨t.slots.setIfInBounds i ⟨g, some x⟩, free, t.live + 1⟩) ∨
    (t.free = [] ∧ t.slots.size < slotBound ∧ h = handle t.slots.size firstGeneration ∧
      u = ⟨t.slots.push ⟨firstGeneration, some x⟩, [], t.live + 1⟩) := by
  cases hfree : t.free with
  | nil =>
    simp only [insert, hfree] at hi
    split at hi
    · next hsize =>
      obtain ⟨rfl, rfl⟩ := Prod.mk.inj (Option.some.inj hi)
      exact .inr ⟨rfl, hsize, rfl, rfl⟩
    · contradiction
  | cons i free =>
    -- the slot on top of the list is one of those known to be vacant
    obtain ⟨g, hg, hat⟩ := ht.vacant_of_free i (by simp [hfree])
    have hlt := Nat.lt_of_lt_of_le (Array.getElem?_eq_some_iff.1 hat).1 ht.size_le
    simp only [insert, hfree, hat, Option.some.injEq, Prod.mk.injEq] at hi
    obtain ⟨rfl, rfl⟩ := hi
    exact .inl ⟨i, g, free, rfl, hlt, hg, hat, rfl, rfl⟩

/-- Taking back a handle empties its slot and moves it on to the next generation; after the last
one it is not used again. -/
theorem remove_cases (hr : t.remove h = some (x, u)) :
    t.get? h = some x ∧
      u = ⟨t.slots.setIfInBounds (index h) ⟨generation h + 1, none⟩,
        if generation h + 1 = 0 then t.free else index h :: t.free, t.live - 1⟩ := by
  cases hget : t.get? h with
  | none =>
    exfalso
    cases hslot : t.slot? h with
    | none => simp [remove, hslot] at hr
    | some slot =>
      have hcontent : slot.content = none := by simpa [get?, hslot] using hget
      simp [remove, hslot, hcontent] at hr
  | some y =>
    simp only [remove, slot?_of_live hget, Option.some.injEq, Prod.mk.injEq] at hr
    obtain ⟨rfl, rfl⟩ := hr
    exact ⟨rfl, rfl⟩

theorem remove_of_get? (hget : t.get? h = none) : t.remove h = none := by
  cases hr : t.remove h with
  | none => rfl
  | some result => simp [(remove_cases hr).1] at hget

/-- What cannot be taken back is not live. -/
theorem get?_of_remove (hr : t.remove h = none) : t.get? h = none := by
  cases hget : t.get? h with
  | none => rfl
  | some x => simp [remove, slot?_of_live hget] at hr

theorem update_of_get? (hget : t.get? h = none) (y : α) : t.update h y = t := by
  simp [update, hget]

theorem update_of_live (hget : t.get? h = some x) (y : α) :
    t.update h y = { t with
      slots := t.slots.setIfInBounds (index h) ⟨generation h, some y⟩ } := by
  simp [update, hget]

/-! ## What operations do to a handle's object -/

/-- A new object gets a handle that was not live, and no other handle's object changes. -/
theorem get?_insert (ht : t.WellFormed) (hi : t.insert x = some (h, u)) :
    t.get? h = none ∧ ∀ k, u.get? k = if k = h then some x else t.get? k := by
  rcases insert_cases ht hi with ⟨i, g, free, -, hlt, -, hat, rfl, rfl⟩ | ⟨-, hlt, rfl, rfl⟩
  · -- no handle of a vacant slot is live, whatever generation it names
    have hvacant : ∀ k, index k = i → t.get? k = none := by
      rintro k rfl
      rw [get?_of_slot hat, ite_self]
    refine ⟨hvacant _ (index_handle hlt g), ?_⟩
    intro k
    simp only [get?_setSlot (Array.getElem?_eq_some_iff.1 hat).1, eq_handle_iff hlt]
    by_cases hindex : index k = i
    · simp [hindex, hvacant k hindex, eq_comm]
    · simp [hindex]
  · have habsent : ∀ k, index k = t.slots.size → t.get? k = none := by
      intro k hk
      simp [get?, slot?, hk]
    refine ⟨habsent _ (index_handle hlt _), ?_⟩
    intro k
    simp only [get?_pushSlot, eq_handle_iff hlt]
    by_cases hindex : index k = t.slots.size
    · simp [hindex, habsent k hindex, eq_comm]
    · simp [hindex]

/-- Only the object of a live handle can be replaced, and no other handle's object changes. -/
theorem get?_update (t : Table α) (h k : Handle) (y : α) :
    (t.update h y).get? k = if k = h then (t.get? h).map fun _ => y else t.get? k := by
  cases hget : t.get? h with
  | none =>
    rw [update_of_get? hget]
    split
    · next hk => rw [hk, hget, Option.map_none]
    · rfl
  | some x =>
    simp only [update_of_live hget, get?_setSlot (index_lt_size_of_get? hget),
      eq_iff_index_generation (h := k)]
    by_cases hindex : index k = index h
    · have hat := get?_eq_some_iff.1 hget
      rw [← hindex] at hat
      simp only [hindex, get?_of_slot hat, if_true, true_and, eq_comm (a := generation k)]
      split <;> rfl
    · simp [hindex]

/-- Only the last replacement of an object counts. -/
theorem update_update (t : Table α) (h : Handle) (x y : α) :
    (t.update h x).update h y = t.update h y := by
  cases hget : t.get? h with
  | none => simp [update_of_get? hget]
  | some old =>
    have hnext : (t.update h x).get? h = some x := by
      simp [get?_update, hget]
    rw [update_of_live hnext, update_of_live hget, update_of_live hget,
      Array.setIfInBounds_setIfInBounds]

/-- What is taken back was live, and no other handle's object changes. -/
theorem get?_remove (hr : t.remove h = some (x, u)) :
    t.get? h = some x ∧ ∀ k, u.get? k = if k = h then none else t.get? k := by
  obtain ⟨hget, rfl⟩ := remove_cases hr
  refine ⟨hget, ?_⟩
  intro k
  -- the slot is emptied, so none of its handles is live, and only this one was
  simp only [get?_setSlot (index_lt_size_of_get? hget), eq_iff_index_generation (h := k)]
  by_cases hindex : index k = index h
  · have hat := get?_eq_some_iff.1 hget
    rw [← hindex] at hat
    simp only [hindex, get?_of_slot hat, if_true, true_and, ite_self, eq_comm (a := generation k)]
    split <;> rfl
  · simp [hindex]

/-! ## Operations keep a table well formed -/

theorem WellFormed.insert (ht : t.WellFormed) (hi : t.insert x = some (h, u)) :
    u.WellFormed := by
  rcases insert_cases ht hi with ⟨i, g, free, hfree, hlt, hg, hat, -, rfl⟩ | ⟨hfree, hlt, -, rfl⟩
  · have hnodup := ht.free_nodup
    rw [hfree, List.nodup_cons] at hnodup
    refine ⟨by simpa using ht.size_le, ?_, hnodup.2, ?_⟩
    · intro j g' x' hj
      rw [Array.getElem?_setIfInBounds] at hj
      split at hj
      · split at hj
        · simp only [Option.some.injEq, Slot.mk.injEq] at hj
          exact hj.1 ▸ hg
        · contradiction
      · exact ht.generation_ne_zero j g' x' hj
    · intro j hj
      have hne : i ≠ j := fun hij => hnodup.1 (hij ▸ hj)
      rw [Array.getElem?_setIfInBounds_ne hne]
      exact ht.vacant_of_free j (by simp [hfree, hj])
  · refine ⟨by simpa using Nat.succ_le_of_lt hlt, ?_, List.nodup_nil, by simp⟩
    intro j g' x' hj
    rw [Array.getElem?_push] at hj
    split at hj
    · simp only [Option.some.injEq, Slot.mk.injEq] at hj
      exact hj.1 ▸ by decide
    · exact ht.generation_ne_zero j g' x' hj

theorem WellFormed.update (ht : t.WellFormed) (h : Handle) (y : α) :
    (t.update h y).WellFormed := by
  cases hget : t.get? h with
  | none => rwa [update_of_get? hget]
  | some x =>
    have hat := get?_eq_some_iff.1 hget
    rw [update_of_live hget]
    -- the slot stays at its generation and off the list, so only its object has to be looked at
    refine ⟨by simpa using ht.size_le, ?_, ht.free_nodup, ?_⟩
    · intro j g' x' hj
      rw [Array.getElem?_setIfInBounds] at hj
      split at hj
      · split at hj
        · simp only [Option.some.injEq, Slot.mk.injEq] at hj
          exact hj.1 ▸ ht.generation_ne_zero _ _ _ hat
        · contradiction
      · exact ht.generation_ne_zero j g' x' hj
    · intro j hj
      obtain ⟨g, hg, hvacant⟩ := ht.vacant_of_free j hj
      have hne : index h ≠ j := fun hij => by simp [← hij, hat] at hvacant
      rw [Array.getElem?_setIfInBounds_ne hne]
      exact ⟨g, hg, hvacant⟩

theorem WellFormed.remove (ht : t.WellFormed) (hr : t.remove h = some (x, u)) :
    u.WellFormed := by
  obtain ⟨hget, rfl⟩ := remove_cases hr
  have hat := get?_eq_some_iff.1 hget
  -- an occupied slot is not listed as free, so it is listed once after it was emptied
  have hnotFree : index h ∉ t.free := fun hmem => by
    obtain ⟨g, -, hvacant⟩ := ht.vacant_of_free _ hmem
    simp [hat] at hvacant
  have hothers : ∀ j ∈ t.free, ∃ g : UInt32, g ≠ 0 ∧
      (t.slots.setIfInBounds (index h) ⟨generation h + 1, none⟩)[j]? = some ⟨g, none⟩ := by
    intro j hj
    have hne : index h ≠ j := fun hij => hnotFree (hij ▸ hj)
    rw [Array.getElem?_setIfInBounds_ne hne]
    exact ht.vacant_of_free j hj
  refine ⟨by simpa using ht.size_le, ?_, ?_, ?_⟩
  · intro j g' x' hj
    rw [Array.getElem?_setIfInBounds] at hj
    split at hj
    · split at hj <;> simp at hj
    · exact ht.generation_ne_zero j g' x' hj
  · dsimp only
    split
    · exact ht.free_nodup
    · exact List.nodup_cons.2 ⟨hnotFree, ht.free_nodup⟩
  · dsimp only
    split
    · exact hothers
    · next hnext =>
      refine List.forall_mem_cons.2 ⟨⟨generation h + 1, hnext, ?_⟩, hothers⟩
      exact Array.getElem?_setIfInBounds_self_of_lt (index_lt_size_of_get? hget)

/-! ## Write by write -/

/-- **An insertion in place** is an insertion, and writes nothing if there is no room. -/
theorem run_insertInPlace (t : Table α) (x : α) :
    (insertInPlace x).run t =
      match t.insert x with
      | some (h, u) => (some h, u)
      | none => (none, t) := by
  rw [insertInPlace, StateT.run_bind, StateT.run_get, pure_bind, insert]
  dsimp only
  split
  · split <;> rfl
  · next hfree =>
    split
    · rw [← hfree]
      rfl
    · rfl

/-- **A removal in place** is a removal. A slot that was empty is emptied again if the handle is at
its generation, which changes nothing. -/
theorem run_removeInPlace (t : Table α) (h : Handle) :
    (removeInPlace h).run t =
      match t.remove h with
      | some (x, u) => (some x, u)
      | none => (none, t) := by
  rw [removeInPlace, StateT.run_bind, StateT.run_get, pure_bind, remove]
  dsimp only
  split
  · rfl
  · next slot hslot =>
    obtain ⟨hat, -⟩ := Option.filter_eq_some_iff.1 hslot
    obtain ⟨hi, hslot⟩ := Array.getElem?_eq_some_iff.1 hat
    rcases slot with ⟨g, _ | x⟩
    · have hsame : t.slots.setIfInBounds (index h) ⟨g, none⟩ = t.slots := by
        simp [Array.setIfInBounds, hi, ← hslot]
      show (none, { t with slots := t.slots.setIfInBounds (index h) ⟨g, none⟩ }) = (none, t)
      rw [hsame]
    · -- the slot is written twice, and the second time with its next generation
      by_cases hnext : g + 1 = 0
      · simp [hnext]
        rfl
      · simp [hnext]
        rfl

end Parcel.Table
