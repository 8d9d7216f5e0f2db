import Parcel.Proofs.Table.Lookup

/-!
# Runs of a table

The generation of a slot never goes back, and a slot that has used up its generations counts as past
all of them. A handle whose slot is past its generation is dead for good, and every handle that was
given out is live or dead in this way, so a table never gives out a handle for the second time.

## Main definitions

* `Operation`, `Table.apply`, `Table.run`: what can be done to a table, once and again and again
* `Table.Passed`: the handles whose slot is past their generation
* `Table.Spent`: the handles that are live or passed

## Main results

* `Advance`, `apply_advance`: what one operation does to the passed and the spent handles
* `run_advance`: the same for a whole run
* `issues_each_handle_once`: no run gives out a handle twice, and what it takes back stays dead
-/

namespace Parcel

/-- What can be done to a table. -/
inductive Operation (α : Type)
  | insert (object : α)
  | update (h : Handle) (object : α)
  | remove (h : Handle)

namespace Table

variable {α : Type} {t u v : Table α} {h k : Handle} {x : α}

/-- The handle that an operation gives out, and the table afterwards. What is refused changes
nothing. -/
def apply (t : Table α) : Operation α → Option Handle × Table α
  | .insert object =>
    match t.insert object with
    | some (h, changed) => (some h, changed)
    | none => (none, t)
  | .update h object => (none, t.update h object)
  | .remove h =>
    match t.remove h with
    | some (_, changed) => (none, changed)
    | none => (none, t)

/-- The handles that a run of operations gives out, in order, and the table afterwards. -/
def run (t : Table α) : List (Operation α) → List Handle × Table α
  | [] => ([], t)
  | operation :: rest =>
    let (issued, changed) := t.apply operation
    let (later, final) := run changed rest
    (issued.toList ++ later, final)

/-! ## Passed and spent handles -/

/-- The number of a slot's generation; the one that follows the last is beyond all that handles
name. -/
def age (g : UInt32) : Nat :=
  if g = 0 then slotBound else g.toNat

theorem toNat_lt_age_succ (g : UInt32) : g.toNat < age (g + 1) := by
  rw [age]
  split
  · -- the generations are used up
    exact g.toNat_lt
  · next hne =>
    have hne : (g + 1).toNat ≠ 0 := fun heq => hne (UInt32.toNat_inj.1 heq)
    rw [UInt32.toNat_add] at hne ⊢
    have := g.toNat_lt
    simp only [UInt32.toNat_one] at *
    omega

theorem age_eq_toNat {g : UInt32} (hg : g ≠ 0) : age g = g.toNat :=
  if_neg hg

/-- The slot of the handle is past the handle's generation. -/
def Passed (t : Table α) (h : Handle) : Prop :=
  ∃ slot, t.slots[index h]? = some slot ∧ (generation h).toNat < age slot.generation

/-- The handle is live, or its slot is past its generation. -/
def Spent (t : Table α) (h : Handle) : Prop :=
  t.Passed h ∨ (t.get? h).isSome

/-- **Passed handles are dead.** -/
theorem Passed.get?_eq_none (ht : t.WellFormed) (hp : t.Passed h) : t.get? h = none := by
  obtain ⟨slot, hat, hlt⟩ := hp
  cases hget : t.get? h with
  | none => rfl
  | some x =>
    -- a live handle is at the generation of its slot, not before it
    rw [get?_eq_some_iff, hat, Option.some.injEq] at hget
    subst hget
    rw [age_eq_toNat (ht.generation_ne_zero _ _ _ hat)] at hlt
    exact absurd hlt (Nat.lt_irrefl _)

/-- The handle of a vacant slot at its own generation was never given out. -/
theorem not_spent_handle {i : Nat} {g : UInt32} (hi : i < slotBound) (hg : g ≠ 0)
    (hat : t.slots[i]? = some ⟨g, none⟩ ∨ t.slots[i]? = none) : ¬ t.Spent (handle i g) := by
  -- a spent handle is older than its slot, or live
  rintro (⟨slot, hslot, hlt⟩ | hlive)
  · rw [index_handle hi] at hslot
    rw [generation_handle hi] at hlt
    rcases hat with hat | hat
    · rw [hat, Option.some.injEq] at hslot
      subst hslot
      rw [age_eq_toNat hg] at hlt
      exact absurd hlt (Nat.lt_irrefl _)
    · rw [hat] at hslot
      contradiction
  · obtain ⟨x, hget⟩ := Option.isSome_iff_exists.1 hlive
    rw [get?_eq_some_iff, index_handle hi] at hget
    rcases hat with hat | hat <;> simp [hat] at hget

theorem handle_ne_zero {i : Nat} {g : UInt32} (hi : i < slotBound) (hg : g ≠ 0) :
    handle i g ≠ 0 := by
  intro hzero
  have hgeneration := generation_handle hi g
  rw [hzero] at hgeneration
  exact hg (hgeneration.symm.trans (by decide))

/-! ## What operations do to passed and spent handles -/

/-- **An advance** from one table to another: passed handles stay passed, spent handles stay spent,
and the handles given out on the way are new, lie apart, and are not zero. -/
structure Advance (t : Table α) (issued : List Handle) (u : Table α) : Prop where
  wellFormed : u.WellFormed
  passed : ∀ h, t.Passed h → u.Passed h
  spent : ∀ h, t.Spent h → u.Spent h
  fresh : ∀ h ∈ issued, ¬ t.Spent h
  given : ∀ h ∈ issued, u.Spent h
  nodup : issued.Nodup
  ne_zero : ∀ h ∈ issued, h ≠ 0

theorem Advance.refl (ht : t.WellFormed) : Advance t [] t where
  wellFormed := ht
  passed _ := id
  spent _ := id
  fresh := by simp
  given := by simp
  nodup := List.nodup_nil
  ne_zero := by simp

theorem Advance.trans {first later : List Handle} (htu : Advance t first u)
    (huv : Advance u later v) : Advance t (first ++ later) v where
  wellFormed := huv.wellFormed
  passed h hp := huv.passed h (htu.passed h hp)
  spent h hs := huv.spent h (htu.spent h hs)
  fresh h hmem hs := by
    rcases List.mem_append.1 hmem with hmem | hmem
    · exact htu.fresh h hmem hs
    · exact huv.fresh h hmem (htu.spent h hs)
  given h hmem := by
    rcases List.mem_append.1 hmem with hmem | hmem
    · exact huv.spent h (htu.given h hmem)
    · exact huv.given h hmem
  nodup := by
    refine List.nodup_append.2 ⟨htu.nodup, huv.nodup, ?_⟩
    rintro h hfirst _ hlater rfl
    exact huv.fresh h hlater (htu.given h hfirst)
  ne_zero h hmem := by
    rcases List.mem_append.1 hmem with hmem | hmem
    · exact htu.ne_zero h hmem
    · exact huv.ne_zero h hmem

/-- No slot of the first table goes back to an earlier generation in the second. -/
def AgeLe (t u : Table α) : Prop :=
  ∀ (i : Nat) (slot : Slot α), t.slots[i]? = some slot →
    ∃ slot' : Slot α, u.slots[i]? = some slot' ∧ age slot.generation ≤ age slot'.generation

theorem AgeLe.passed (hage : AgeLe t u) (hp : t.Passed h) : u.Passed h := by
  obtain ⟨slot, hat, hlt⟩ := hp
  obtain ⟨slot', hat', hle⟩ := hage _ slot hat
  exact ⟨slot', hat', Nat.lt_of_lt_of_le hlt hle⟩

theorem ageLe_setSlot {i : Nat} {slot new : Slot α} {free : List Nat} {live : Nat}
    (hat : t.slots[i]? = some slot) (hage : age slot.generation ≤ age new.generation) :
    AgeLe t ⟨t.slots.setIfInBounds i new, free, live⟩ := by
  intro j old hj
  by_cases hij : i = j
  · subst hij
    rw [hat, Option.some.injEq] at hj
    subst hj
    exact ⟨new, Array.getElem?_setIfInBounds_self_of_lt (Array.getElem?_eq_some_iff.1 hat).1, hage⟩
  · exact ⟨old, by rw [Array.getElem?_setIfInBounds_ne hij, hj], Nat.le_refl _⟩

theorem ageLe_pushSlot (t : Table α) (new : Slot α) (free : List Nat) (live : Nat) :
    AgeLe t ⟨t.slots.push new, free, live⟩ := by
  intro i slot hat
  have hne : i ≠ t.slots.size := Nat.ne_of_lt (Array.getElem?_eq_some_iff.1 hat).1
  exact ⟨slot, by rw [Array.getElem?_push, if_neg hne, hat], Nat.le_refl _⟩

theorem insert_advance (ht : t.WellFormed) (hi : t.insert x = some (h, u)) :
    Advance t [h] u := by
  have hget := get?_insert ht hi
  have hage : AgeLe t u := by
    rcases insert_cases ht hi with ⟨i, g, free, -, -, -, hat, -, rfl⟩ | ⟨-, -, -, rfl⟩
    · exact ageLe_setSlot hat (Nat.le_refl _)
    · exact ageLe_pushSlot t _ _ _
  -- either way the slot was vacant, and the handle is at its generation
  have hnew : ¬ t.Spent h ∧ h ≠ 0 := by
    rcases insert_cases ht hi with ⟨i, g, free, -, hlt, hg, hat, rfl, -⟩ | ⟨-, hlt, rfl, -⟩
    · exact ⟨not_spent_handle hlt hg (.inl hat), handle_ne_zero hlt hg⟩
    · exact ⟨not_spent_handle hlt (by decide) (.inr (by simp)), handle_ne_zero hlt (by decide)⟩
  refine ⟨ht.insert hi, fun k => hage.passed, ?_, ?_, ?_, ?_, ?_⟩
  · intro k hs
    refine hs.imp hage.passed ?_
    intro hlive
    rw [hget.2]
    split
    · rfl
    · exact hlive
  · simpa using hnew.1
  · simp [Spent, hget.2]
  · simp
  · simpa using hnew.2

theorem update_advance (ht : t.WellFormed) (h : Handle) (y : α) :
    Advance t [] (t.update h y) := by
  cases hget : t.get? h with
  | none => exact (update_of_get? hget y).symm ▸ Advance.refl ht
  | some x =>
    have hage : AgeLe t (t.update h y) := by
      rw [update_of_live hget]
      exact ageLe_setSlot (get?_eq_some_iff.1 hget) (Nat.le_refl _)
    refine ⟨ht.update h y, fun k => hage.passed, ?_, by simp, by simp, List.nodup_nil, by simp⟩
    intro k hs
    refine hs.imp hage.passed ?_
    intro hlive
    rw [get?_update]
    split
    · simp [hget]
    · exact hlive

/-- The handle that is taken back is passed from then on. -/
theorem passed_remove (hr : t.remove h = some (x, u)) : u.Passed h := by
  obtain ⟨hget, rfl⟩ := remove_cases hr
  exact ⟨⟨generation h + 1, none⟩,
    Array.getElem?_setIfInBounds_self_of_lt (index_lt_size_of_get? hget), toNat_lt_age_succ _⟩

theorem remove_advance (ht : t.WellFormed) (hr : t.remove h = some (x, u)) :
    Advance t [] u := by
  have hage : AgeLe t u := by
    obtain ⟨hget, rfl⟩ := remove_cases hr
    have hat := get?_eq_some_iff.1 hget
    refine ageLe_setSlot hat ?_
    rw [age_eq_toNat (ht.generation_ne_zero _ _ _ hat)]
    exact Nat.le_of_lt (toNat_lt_age_succ _)
  refine ⟨ht.remove hr, fun k => hage.passed, ?_, by simp, by simp, List.nodup_nil, by simp⟩
  intro k hs
  -- a spent handle other than the removed one keeps what made it spent
  rcases hs with hp | hlive
  · exact .inl (hage.passed hp)
  · by_cases hk : k = h
    · exact .inl (hk ▸ passed_remove hr)
    · exact .inr (by rwa [(get?_remove hr).2, if_neg hk])

/-- **One operation** is an advance. -/
theorem apply_advance (ht : t.WellFormed) (operation : Operation α) :
    Advance t (t.apply operation).1.toList (t.apply operation).2 := by
  cases operation with
  | insert object =>
    cases hi : t.insert object with
    | none => simpa [apply, hi] using Advance.refl ht
    | some result => simpa [apply, hi] using insert_advance ht hi
  | update h object => exact update_advance ht h object
  | remove h =>
    cases hr : t.remove h with
    | none => simpa [apply, hr] using Advance.refl ht
    | some result => simpa [apply, hr] using remove_advance ht hr

/-- **A run** is an advance. -/
theorem run_advance (ht : t.WellFormed) (operations : List (Operation α)) :
    Advance t (t.run operations).1 (t.run operations).2 := by
  -- the first operation leaves the table well formed, so the rest of the run advances from there
  induction operations generalizing t with
  | nil => exact Advance.refl ht
  | cons operation rest ih =>
    have hfirst := apply_advance ht operation
    exact hfirst.trans (ih hfirst.wellFormed)

/-- **A handle is given out once.** All handles that a run gives out differ, and none is zero; and a
handle that was taken back stays dead, whatever comes later, and is not given out again. -/
theorem issues_each_handle_once (before : List (Operation α)) :
    let (issued, t) := (empty : Table α).run before
    issued.Nodup ∧ 0 ∉ issued ∧
      ∀ h x u, t.remove h = some (x, u) → ∀ after : List (Operation α),
        let (later, v) := u.run after
        v.get? h = none ∧ (∀ y, v.update h y = v) ∧ v.remove h = none ∧ h ∉ later := by
  have hrun := run_advance (α := α) WellFormed.empty before
  refine ⟨hrun.nodup, fun hzero => hrun.ne_zero 0 hzero rfl, ?_⟩
  intro h x u hr after
  -- the slot has moved past the handle, and the later run never takes it back there
  have hlater := run_advance (hrun.wellFormed.remove hr) after
  have hdead := (hlater.passed h (passed_remove hr)).get?_eq_none hlater.wellFormed
  exact ⟨hdead, update_of_get? hdead, remove_of_get? hdead,
    fun hmem => hlater.fresh h hmem (.inl (passed_remove hr))⟩

/-- The first handle is taken back, and its slot is used again. -/
theorem issues_each_handle_once_reused :
    ∃ u, ((empty : Table Bool).run [.insert true]).2.remove 1 = some (true, u) ∧
      (u.run [.insert false]).1 = [2] ∧ (u.run [.insert false]).2.get? 1 = none := by
  refine ⟨⟨#[⟨2, none⟩], [0], 0⟩, rfl, rfl, ?_⟩
  exact ((issues_each_handle_once [.insert true]).2.2 1 true _ rfl [.insert false]).1

end Table

end Parcel
