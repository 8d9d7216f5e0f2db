import Mathlib.Data.List.Perm.Subperm
import Parcel.Proofs.Json.Canonical

/-!
# Equality and the order of entries

Values that differ in the order of entries only are equal. The converse holds but for the zeros:
doubles are compared as numbers, under which the two zeros agree, while their bits differ. Equality
of values in which only one of the zeros occurs is exactly a difference in the order of entries.

## Main definitions

* `Json.OneZero`: all zeros in a value are the same double

## Main results

* `Json.reordered_of_same`: equal values without both zeros differ in the order of entries only
* `Json.same_iff_reordered`: what equality of such values is
-/

namespace Parcel

theorem Double.eq_of_same {x y z : Double} (hx : x.isZero = true → x = z)
    (hy : y.isZero = true → y = z) (h : x.same y = true) : x = y := by
  rw [Double.same, Bool.or_eq_true, Bool.and_eq_true, Bool.and_eq_true] at h
  rcases h with ⟨hxzero, hyzero⟩ | ⟨heq, -⟩
  · rw [hx hxzero, hy hyzero]
  · exact eq_of_beq heq

theorem Entries.mem_of_get? {entries : Entries} {key : String} {value : Json}
    (h : entries.get? key = some value) : (key, value) ∈ entries := by
  obtain ⟨front, rest, rfl, -⟩ := List.lookup_eq_some_iff.1 h
  simp

namespace Json

variable {z : Double} {a b : Json} {as bs : Entries} {xs ys : List Json}

/-- A double that is a zero is the zero `z`. -/
def OneZeroHere (z : Double) : Json → Prop
  | .double x => x.isZero = true → x = z
  | _ => True

instance : DecidablePred (OneZeroHere z)
  | .double x => inferInstanceAs (Decidable (x.isZero = true → x = z))
  | .null | .bool _ | .integer _ | .text _ | .array _ | .object _ => isTrue trivial

/-- **One zero**: every double in a value that is a zero is the zero `z`, so its sign is always the
same. -/
abbrev OneZero (z : Double) : Json → Prop := Every (OneZeroHere z)

theorem oneZero_object : OneZero z (.object as) ↔ ∀ entry ∈ as, OneZero z entry.2 :=
  every_object.trans (and_iff_right trivial)

/-! ## Items and entries of equal values -/

theorem forall₂_of_sameItems (h : sameItems xs ys = true) :
    List.Forall₂ (fun item other => same item other = true) xs ys := by
  induction xs generalizing ys with
  | nil =>
    cases ys with
    | nil => exact .nil
    | cons other others => simp [sameItems] at h
  | cons item rest ih =>
    cases ys with
    | nil => simp [sameItems] at h
    | cons other others =>
      rw [sameItems, Bool.and_eq_true] at h
      exact .cons h.1 (ih h.2)

/-- Entries that are found one by one among as many others are those others in some order. -/
theorem exists_perm_of_get? {r : Json → Json → Prop} (hnodup : (Entries.keys as).Nodup)
    (hlength : as.length = bs.length)
    (h : ∀ entry ∈ as, ∃ other, Entries.get? bs entry.1 = some other ∧ r entry.2 other) :
    ∃ cs : Entries, List.Forall₂ (fun entry other => entry.1 = other.1 ∧ r entry.2 other.2) as cs ∧
      cs.Perm bs := by
  let found (entry : String × Json) : String × Json :=
    (entry.1, (Entries.get? bs entry.1).getD .null)
  have hfound : ∀ entry ∈ as, found entry ∈ bs ∧ r entry.2 (found entry).2 := by
    intro entry hmem
    obtain ⟨other, hother, hr⟩ := h entry hmem
    simp [found, hother, hr, Entries.mem_of_get? hother]
  refine ⟨as.map found, ?_, ?_⟩
  · rw [List.forall₂_map_right_iff, List.forall₂_same]
    exact fun entry hmem => ⟨rfl, (hfound entry hmem).2⟩
  · -- different keys are found at different places, and all places are used
    have hdistinct : (as.map found).Nodup := by
      refine List.Nodup.of_map Prod.fst ?_
      simpa [found, Entries.keys, Function.comp_def] using hnodup
    have hsubset : as.map found ⊆ bs :=
      List.forall_mem_map.2 fun entry hmem => (hfound entry hmem).1
    exact (List.subperm_of_subset hdistinct hsubset).perm_of_length_le (by simp [hlength])

/-! ## Equal values -/

/-- Equal scalars are the same, or doubles. -/
theorem eq_or_double_of_same (ha : a.isContainer = false) (h : same a b = true) :
    a = b ∨ ∃ x y, a = .double x ∧ b = .double y ∧ x.same y = true := by
  cases a with
  | array items => contradiction
  | object entries => contradiction
  | double x =>
    cases b with
    | double y =>
      rw [same] at h
      exact .inr ⟨x, y, rfl, rfl, h⟩
    | _ => simp [same] at h
  | null =>
    cases b with
    | null => exact .inl rfl
    | _ => simp [same] at h
  | bool value | integer value | text value =>
    -- such a scalar is equal only to itself
    cases b <;> simp [same] at h
    exact .inl (h ▸ rfl)

/-- **Equal values are related** by every relation that holds of equal scalars and is put together
from parts, whatever is known of all parts of the two values. -/
theorem related_of_same {p q : Json → Prop} {r : Json → Json → Prop}
    (hscalar : ∀ a b, a.isContainer = false → p a → q b → same a b = true → r a b)
    (harray : ∀ xs ys, List.Forall₂ r xs ys → r (.array xs) (.array ys))
    (hobject : ∀ as bs cs : Entries, (Entries.keys as).Nodup →
      List.Forall₂ (fun entry other => entry.1 = other.1 ∧ r entry.2 other.2) as cs → cs.Perm bs →
      r (.object as) (.object bs))
    (hkeys : ∀ as, p (.object as) → (Entries.keys as).Nodup)
    (ha : Every p a) (hb : Every q b) (h : same a b = true) : r a b := by
  induction a using inductionOn generalizing b with
  | array items ih =>
    cases b with
    | array others =>
      rw [same] at h
      obtain ⟨hlength, hinside⟩ := List.forall₂_iff_zip.1 (forall₂_of_sameItems h)
      refine harray _ _ (List.forall₂_iff_zip.2 ⟨hlength, ?_⟩)
      intro item other hmem
      obtain ⟨hitem, hother⟩ := List.of_mem_zip hmem
      exact ih item hitem ((every_array.1 ha).2 item hitem) ((every_array.1 hb).2 other hother)
        (hinside hmem)
    | _ => simp [same] at h
  | object entries ih =>
    cases b with
    | object others =>
      rw [same, Bool.and_eq_true, beq_iff_eq, agree_iff] at h
      obtain ⟨hlength, hagree⟩ := h
      obtain ⟨hhere, hinside⟩ := every_object.1 ha
      have hfound : ∀ entry ∈ entries, ∃ other,
          Entries.get? others entry.1 = some other ∧ r entry.2 other := by
        intro entry hmem
        obtain ⟨other, hother, hsame⟩ := hagree entry hmem
        have hinside' := (every_object.1 hb).2 _ (Entries.mem_of_get? hother)
        exact ⟨other, hother, ih entry hmem (hinside entry hmem) hinside' hsame⟩
      have hnodup := hkeys _ hhere
      -- entries are found by their keys, wherever they stand in the other object
      obtain ⟨cs, hentries, hperm⟩ := exists_perm_of_get? hnodup hlength hfound
      exact hobject _ _ cs hnodup hentries hperm
    | _ => simp [same] at h
  | null | bool _ | integer _ | double _ | text _ =>
    exact hscalar _ _ rfl (every_iff.1 ha).1 (every_iff.1 hb).1 h

/-- **Equal values** in which only one of the zeros occurs differ in the order of entries only. -/
theorem reordered_of_same (ha : Proper a) (haz : OneZero z a) (hbz : OneZero z b)
    (h : same a b = true) : Reordered a b := by
  refine related_of_same ?_ (fun _ _ => reordered_array) (fun _ _ _ _ => reordered_object)
    (fun _ hhere => hhere.1) (ha.and haz) hbz h
  intro a b hscalar hhere hzero hsame
  rcases eq_or_double_of_same hscalar hsame with rfl | ⟨x, y, rfl, rfl, hdouble⟩
  · exact .scalar hscalar
  · rw [Double.eq_of_same hhere.2 hzero hdouble]
    exact .scalar rfl

/-- **Equality ignores the order of entries, and nothing else** of values in which only one of the
zeros occurs. -/
theorem same_iff_reordered (ha : Proper a) (haz : OneZero z a) (hbz : OneZero z b) :
    same a b = true ↔ Reordered a b :=
  ⟨reordered_of_same ha haz hbz, fun h => h.same ha⟩

end Json

end Parcel
