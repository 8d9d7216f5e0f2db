import Parcel.Metadata.Limits

/-!
# Nesting depth and its limit

The walk over a stack finds out whether the depth of a value exceeds a limit, so the check of a
mapping is a bound on the depth of the object that the mapping is.

## Main results

* `depth_le_succ_iff`: the depth of a container in terms of its children
* `walk_iff`, `exceeds_iff`: what the walk finds out
* `check_eq_ok_iff`: the mappings that keep the nesting limit
-/

namespace Parcel

namespace Json

variable {v : Json} {items : List Json} {entries : Entries} {limit n : Nat}

theorem depthOfItems_le_iff : depthOfItems items ≤ n ↔ ∀ item ∈ items, item.depth ≤ n := by
  induction items with
  | nil => simp [depthOfItems]
  | cons item rest ih => rw [depthOfItems, Nat.max_le, ih, List.forall_mem_cons]

theorem depthOfEntries_le_iff :
    depthOfEntries entries ≤ n ↔ ∀ entry ∈ entries, entry.2.depth ≤ n := by
  induction entries with
  | nil => simp [depthOfEntries]
  | cons entry rest ih => rw [depthOfEntries, Nat.max_le, ih, List.forall_mem_cons]

@[simp] theorem depth_array_le_succ :
    depth (.array items) ≤ n + 1 ↔ ∀ item ∈ items, item.depth ≤ n := by
  rw [depth, Nat.succ_le_succ_iff, depthOfItems_le_iff]

@[simp] theorem depth_object_le_succ :
    depth (.object entries) ≤ n + 1 ↔ ∀ entry ∈ entries, entry.2.depth ≤ n := by
  rw [depth, Nat.succ_le_succ_iff, depthOfEntries_le_iff]

@[simp] theorem not_depth_array_le_zero : ¬ depth (.array items) ≤ 0 := by
  simp [depth]

@[simp] theorem not_depth_object_le_zero : ¬ depth (.object entries) ≤ 0 := by
  simp [depth]

theorem depth_eq_zero (hv : v.isContainer = false) : v.depth = 0 := by
  cases v <;> simp_all [isContainer, depth]

theorem depth_pos (hv : v.isContainer = true) : 0 < v.depth := by
  cases v <;> simp_all [isContainer, depth]

/-- A container nests one level more than what is inside it. -/
theorem depth_le_succ_iff (hv : v.isContainer = true) :
    v.depth ≤ n + 1 ↔ ∀ child ∈ v.children, child.depth ≤ n := by
  cases v with
  | array items => exact depth_array_le_succ
  | object entries =>
    rw [depth_object_le_succ, children, List.forall_mem_map]
  | _ => contradiction

theorem depth_child_lt {child : Json} (hmem : child ∈ v.children) : child.depth < v.depth := by
  have hv : v.isContainer = true := by
    cases v <;> simp_all [children, isContainer]
  obtain ⟨n, hn⟩ := Nat.exists_eq_add_of_lt (depth_pos hv)
  have hle := (depth_le_succ_iff (n := n) hv).1 (by omega) child hmem
  omega

/-- **The walk** looks for a container on the stack that reaches more levels than allowed. -/
theorem walk_iff (stack : List (Json × Nat)) :
    walk limit stack = true ↔
      ∃ entry ∈ stack, entry.1.isContainer = true ∧ limit < entry.2 + entry.1.depth := by
  induction stack using walk.induct limit with
  | case1 => simp [walk]
  | case2 v around rest hexceeds =>
    -- the walk stops at a container that is already too deep
    simp only [Bool.and_eq_true, decide_eq_true_eq] at hexceeds
    have hpos := depth_pos hexceeds.1
    rw [walk]
    simp only [hexceeds, decide_true, Bool.and_self, if_true, true_iff]
    exact ⟨(v, around), List.mem_cons_self, hexceeds.1, by dsimp only; omega⟩
  | case3 v around rest hwithin _ ih =>
    -- the value gives way to its children, one level further down
    rw [walk, if_neg hwithin, ih]
    simp only [Bool.and_eq_true, decide_eq_true_eq, not_and, Nat.not_lt] at hwithin
    constructor
    · rintro ⟨entry, hmem, hcontainer, hlt⟩
      rcases List.mem_append.1 hmem with hmem | hmem
      · obtain ⟨child, hchild, rfl⟩ := List.mem_map.1 hmem
        have hdepth := depth_child_lt hchild
        refine ⟨(v, around), List.mem_cons_self, ?_, by dsimp only at *; omega⟩
        cases v <;> simp_all [children, isContainer]
      · exact ⟨entry, List.mem_cons_of_mem _ hmem, hcontainer, hlt⟩
    · rintro ⟨entry, hmem, hcontainer, hlt⟩
      rcases List.mem_cons.1 hmem with rfl | hmem
      · -- the value reaches too far, so one of its children does
        dsimp only at hcontainer hlt
        have hle := hwithin hcontainer
        obtain ⟨n, rfl⟩ := Nat.exists_eq_add_of_le hle
        have hdeep : ¬ v.depth ≤ n + 1 := by omega
        rw [depth_le_succ_iff hcontainer] at hdeep
        simp only [Classical.not_forall, Nat.not_le] at hdeep
        obtain ⟨child, hchild, hlt⟩ := hdeep
        refine ⟨(child, around + 1),
          List.mem_append_left _ (List.mem_map_of_mem hchild), ?_, by dsimp only; omega⟩
        cases hscalar : child.isContainer with
        | true => rfl
        | false => rw [depth_eq_zero hscalar] at hlt; omega
      · exact ⟨entry, List.mem_append_right _ hmem, hcontainer, hlt⟩

/-- **The depth check** finds exactly the values that nest deeper than the limit. -/
theorem exceeds_iff : v.exceeds limit = true ↔ limit < v.depth := by
  rw [exceeds, walk_iff]
  simp only [List.mem_singleton, exists_eq_left, Nat.zero_add, and_iff_right_iff_imp]
  intro hlt
  cases hscalar : v.isContainer with
  | true => rfl
  | false => rw [depth_eq_zero hscalar] at hlt; omega

theorem checkEntry_eq_ok_iff {path : Path} :
    v.checkEntry path = .ok () ↔ v.depth ≤ maxDepth - 1 := by
  rw [checkEntry, ← Nat.not_lt, ← exceeds_iff]
  split <;> simp_all

theorem check_eq_ok_iff : v.check = .ok () ↔ v.depth ≤ maxDepth - 1 :=
  checkEntry_eq_ok_iff

end Json

/-- **The check of a mapping** bounds the depth of the mapping as an object. -/
theorem Entries.check_eq_ok_iff {m : Entries} :
    Entries.check m = .ok () ↔ (Json.object m).depth ≤ maxDepth := by
  -- a value under a key nests one level less than the mapping around it
  show _ ↔ _ ≤ 63 + 1
  rw [Json.depth_object_le_succ]
  induction m with
  | nil => simp [Entries.check]
  | cons entry rest ih =>
    obtain ⟨key, value⟩ := entry
    rw [Entries.check, List.forall_mem_cons, ← ih]
    cases hvalue : value.checkEntry [.key key] with
    | ok =>
      have hle : value.depth ≤ 63 := Json.checkEntry_eq_ok_iff.1 hvalue
      simp [hle]
    | error e =>
      have hdeep : ¬ value.depth ≤ 63 := fun hle => by
        rw [Json.checkEntry_eq_ok_iff.2 hle] at hvalue
        contradiction
      simp [hdeep]

instance (m : Entries) : Decidable (Entries.check m = .ok ()) :=
  decidable_of_iff _ Entries.check_eq_ok_iff.symm

end Parcel
