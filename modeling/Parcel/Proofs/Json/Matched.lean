import Parcel.Proofs.Json.Doubles
import Parcel.Proofs.Json.Equality

/-!
# What equality of values means

Two objects are compared by their sizes and by looking up each key of the first in the second. As
keys are unique, nothing in the second is left over, so both hold the same entries, and which of
them comes first does not matter. Doubles are compared as numbers; all of them are finite, so that
every value is equal to itself.

## Main definitions

* `Double.number`: the number that a finite double stands for
* `Json.Matched`: values with the same content, whatever the order of entries

## Main results

* `Double.same_iff_number_eq`: doubles are equal if they stand for the same number
* `Json.same_iff_matched`: what equality of proper values means
* `Json.same_self`, `Json.same_symm`, `Json.same_trans`: it is an equivalence
* `Json.Matched.reordered`: doubles aside, equal values differ in the order of entries only
* `Json.Matched.depth_le_iff`: equal values nest equally deep
-/

namespace Parcel

/-! ## Doubles as numbers -/

namespace Double

variable {x y : Double}

/-- **The number** that a finite double stands for. -/
def number (x : Double) : ℚ :=
  (if x.isNegative then -1 else 1) * (x.significand * 2 ^ x.exponent)

/-- The sign is no part of the other fields. -/
theorem fields_abs (x : Double) :
    x.abs.significand = x.significand ∧ x.abs.exponent = x.exponent := by
  -- neither field holds the sign, which is the highest bit
  have hexponent : BinaryFormat.double.exponentField x.abs.bits.toNat =
      BinaryFormat.double.exponentField x.bits.toNat := by
    rw [toNat_bits_abs]
    simp only [BinaryFormat.exponentField, BinaryFormat.double, Nat.shiftRight_eq_div_pow,
      Nat.shiftLeft_eq]
    omega
  have hfraction : BinaryFormat.double.fractionField x.abs.bits.toNat =
      BinaryFormat.double.fractionField x.bits.toNat := by
    rw [toNat_bits_abs]
    simp only [BinaryFormat.fractionField, BinaryFormat.double, Nat.shiftLeft_eq]
    omega
  rw [significand, BinaryFormat.significand, exponent, BinaryFormat.exponent, hexponent, hfraction]
  exact ⟨rfl, rfl⟩

theorem number_eq (hx : x.isFinite = true) :
    x.number = (if x.isNegative then -1 else 1) * x.abs.value := by
  obtain ⟨hsignificand, hexponent⟩ := fields_of_lt (bits_abs_lt hx)
  rw [number, ← (fields_abs x).1, ← (fields_abs x).2, hsignificand, hexponent]
  rfl

theorem value_abs_eq_zero_iff : x.abs.value = 0 ↔ x.isZero = true := by
  have hzero : x.abs.value = 0 ↔ x.abs.bits.toNat = 0 := by
    rw [value, ← magnitudeOf_zero, strictMono_magnitudeOf.injective.eq_iff]
  rw [hzero, toNat_bits_abs]
  simp [isZero, BinaryFormat.signBit, BinaryFormat.double, Nat.shiftLeft_eq]

/-- Finite doubles with one sign and one magnitude are the same. -/
theorem eq_of_value_abs_eq (hx : x.isFinite = true) (hy : y.isFinite = true)
    (hsign : x.isNegative = y.isNegative) (hvalue : x.abs.value = y.abs.value) : x = y := by
  have hbits : x.abs.bits.toNat = y.abs.bits.toNat := strictMono_magnitudeOf.injective hvalue
  have habs : x.abs = y.abs := congrArg Double.mk (UInt64.toNat_inj.1 hbits)
  rw [← signed_abs hx, ← signed_abs hy, hsign, habs]

/-- **Doubles are equal exactly if they stand for the same number.** -/
theorem same_iff_number_eq (hx : x.isFinite = true) (hy : y.isFinite = true) :
    x.same y = true ↔ x.number = y.number := by
  rw [number_eq hx, number_eq hy, same, Bool.or_eq_true, Bool.and_eq_true, Bool.and_eq_true,
    ← value_abs_eq_zero_iff, ← value_abs_eq_zero_iff]
  constructor
  · rintro (⟨hxzero, hyzero⟩ | ⟨heq, -⟩)
    · rw [hxzero, hyzero, mul_zero, mul_zero]
    · rw [eq_of_beq heq]
  · intro hnumber
    by_cases hsign : x.isNegative = y.isNegative
    · have hvalue : x.abs.value = y.abs.value := by
        rw [hsign] at hnumber
        refine mul_left_cancel₀ ?_ hnumber
        split <;> norm_num
      rw [eq_of_value_abs_eq hx hy hsign hvalue]
      exact .inr ⟨beq_self_eq_true y, by simp [isNaN, hy]⟩
    · -- only zero is its own opposite
      have hopposite : x.abs.value = -y.abs.value := by
        rw [Bool.eq_not.2 hsign] at hnumber
        cases hnegative : y.isNegative with
        | false => simpa [hnegative, neg_eq_iff_eq_neg] using hnumber
        | true => simpa [hnegative] using hnumber
      have := value_nonneg x.abs
      have := value_nonneg y.abs
      exact .inl ⟨by linarith, by linarith⟩

theorem same_trans {z : Double} (hxy : x.same y = true) (hyz : y.same z = true) :
    x.same z = true := by
  rw [same, Bool.or_eq_true, Bool.and_eq_true, Bool.and_eq_true] at hxy hyz ⊢
  rcases hxy with ⟨hx, hy⟩ | ⟨heq, hnan⟩
  · rcases hyz with ⟨-, hz⟩ | ⟨heq, -⟩
    · exact .inl ⟨hx, hz⟩
    · exact .inl ⟨hx, eq_of_beq heq ▸ hy⟩
  · obtain rfl := eq_of_beq heq
    exact hyz

end Double

namespace Json

variable {a b c : Json} {as bs : Entries} {xs ys zs : List Json}

/-! ## Values with the same content -/

/-- **Values with the same content**: scalars of one kind that are equal, doubles as numbers; arrays
that match item by item; and objects that match key by key, each with its entries in some order. -/
inductive Matched : Json → Json → Prop
  | null : Matched .null .null
  | bool (b : Bool) : Matched (.bool b) (.bool b)
  | integer (n : Int) : Matched (.integer n) (.integer n)
  | double {x y : Double} (h : x.number = y.number) : Matched (.double x) (.double y)
  | text (s : String) : Matched (.text s) (.text s)
  | array (pairs : List (Json × Json)) (inside : ∀ pair ∈ pairs, Matched pair.1 pair.2) :
      Matched (.array (pairs.map Prod.fst)) (.array (pairs.map Prod.snd))
  | object {as bs : Entries} (pairs : List (String × Json × Json))
      (left : as.Perm (pairs.map fun pair => (pair.1, pair.2.1)))
      (right : bs.Perm (pairs.map fun pair => (pair.1, pair.2.2)))
      (inside : ∀ pair ∈ pairs, Matched pair.2.1 pair.2.2) :
      Matched (.object as) (.object bs)

theorem Matched.symm (h : Matched a b) : Matched b a := by
  -- every pair is swapped, at every level
  induction h with
  | null => exact .null
  | bool b => exact .bool b
  | integer n => exact .integer n
  | double h => exact .double h.symm
  | text s => exact .text s
  | array pairs inside ih =>
    have h := Matched.array (pairs.map Prod.swap) (List.forall_mem_map.2 ih)
    simpa [Function.comp_def] using h
  | object pairs left right inside ih =>
    refine .object (pairs.map fun pair => (pair.1, pair.2.2, pair.2.1)) ?_ ?_
      (List.forall_mem_map.2 ih)
    · simpa [Function.comp_def] using right
    · simpa [Function.comp_def] using left

/-- **But for their doubles**, values with the same content differ in the order of entries only. -/
theorem Matched.reordered (h : Matched a b) (z : Double) :
    Reordered (a.mapDoubles fun _ => z) (b.mapDoubles fun _ => z) := by
  -- the pairs stay as they are, and all doubles in them become the same one
  induction h with
  | array pairs inside ih =>
    have h := Reordered.array
      (pairs.map fun pair => (pair.1.mapDoubles fun _ => z, pair.2.mapDoubles fun _ => z))
      (List.forall_mem_map.2 ih)
    simpa [mapDoubles, mapDoublesOfItems_eq_map, Function.comp_def] using h
  | object pairs left right inside ih =>
    rw [mapDoubles, mapDoubles, mapDoublesOfEntries_eq_map, mapDoublesOfEntries_eq_map]
    refine .object (pairs.map fun pair =>
      (pair.1, pair.2.1.mapDoubles fun _ => z, pair.2.2.mapDoubles fun _ => z)) ?_ ?_
      (List.forall_mem_map.2 ih)
    · simpa [Function.comp_def] using left.map fun entry => (entry.1, entry.2.mapDoubles fun _ => z)
    · simpa [Function.comp_def] using
        right.map fun entry => (entry.1, entry.2.mapDoubles fun _ => z)
  | _ => exact .scalar rfl

/-- **Values with the same content nest equally deep.** -/
theorem Matched.depth_le_iff (h : Matched a b) (n : Nat) : a.depth ≤ n ↔ b.depth ≤ n := by
  rw [← depth_mapDoubles_le_iff n, (h.reordered .zero).depth_le_iff n, depth_mapDoubles_le_iff]

theorem Matched.keys_perm (h : Matched (.object as) (.object bs)) :
    (Entries.keys as).Perm (Entries.keys bs) := by
  have hperm := (h.reordered .zero).keys_perm
  rwa [keys_mapDoublesOfEntries, keys_mapDoublesOfEntries] at hperm

/-! ## Equality is the same content -/

theorem matched_self_of_not_isContainer (ha : a.isContainer = false) : Matched a a := by
  cases a with
  | null => exact .null
  | bool b => exact .bool b
  | integer n => exact .integer n
  | double x => exact .double rfl
  | text s => exact .text s
  | array items => contradiction
  | object entries => contradiction

/-- What is found equal has the same content. -/
theorem matched_of_same (ha : Proper a) (hb : Proper b) (h : same a b = true) : Matched a b := by
  refine related_of_same ?_ ?_ ?_ (fun _ hhere => hhere) ha hb h
  · intro a b hscalar ha hb hsame
    rcases eq_or_double_of_same hscalar hsame with rfl | ⟨x, y, rfl, rfl, hdouble⟩
    · exact matched_self_of_not_isContainer hscalar
    · exact .double ((Double.same_iff_number_eq ha hb).1 hdouble)
  · intro xs ys hitems
    obtain ⟨pairs, rfl, rfl, hpairs⟩ := exists_pairs_of_forall₂ hitems
    exact .array pairs hpairs
  · intro as bs cs _ hentries hperm
    obtain ⟨pairs, hleft, hright, hpairs⟩ := exists_pairs_of_entries hentries hperm
    exact .object pairs hleft hright hpairs

/-- Values with the same content are found equal. -/
theorem Matched.same (h : Matched a b) (ha : Proper a) (hb : Proper b) : same a b = true := by
  induction h with
  | double h =>
    rw [Json.same]
    exact (Double.same_iff_number_eq (proper_double.1 ha) (proper_double.1 hb)).2 h
  | array pairs inside ih =>
    rw [proper_array, List.forall_mem_map] at ha hb
    rw [Json.same]
    exact sameItems_map fun pair hmem => ih pair hmem (ha pair hmem) (hb pair hmem)
  | object pairs left right inside ih =>
    have hkeys := (Matched.object pairs left right inside).keys_perm
    obtain ⟨-, hinside⟩ := proper_object.1 ha
    obtain ⟨hnodup, hinside'⟩ := proper_object.1 hb
    rw [Json.same, Bool.and_eq_true, agree_iff]
    refine ⟨by simpa [Entries.keys] using hkeys.length_eq, ?_⟩
    intro entry hmem
    -- the other object has the key once, so the pair matched with the entry is the one found
    obtain ⟨pair, hpair, rfl⟩ := List.mem_map.1 (left.mem_iff.1 hmem)
    have hright := right.mem_iff.2 (List.mem_map_of_mem hpair)
    exact ⟨pair.2.2, lookup_eq_some_of_mem hnodup hright,
      ih pair hpair (hinside _ hmem) (hinside' _ hright)⟩
  | _ => simp [Json.same]

/-- **What equality of proper values means.** -/
theorem same_iff_matched (ha : Proper a) (hb : Proper b) : same a b = true ↔ Matched a b :=
  ⟨matched_of_same ha hb, fun h => h.same ha hb⟩

/-! ## Equality is an equivalence -/

theorem same_self (ha : Proper a) : same a a = true :=
  (Reordered.refl a).same ha

theorem same_symm (ha : Proper a) (hb : Proper b) (h : same a b = true) : same b a = true :=
  (matched_of_same ha hb h).symm.same hb ha

theorem sameItems_trans (h : ∀ item ∈ xs, ∀ b c, same item b = true → same b c = true →
    same item c = true) (hxy : sameItems xs ys = true) (hyz : sameItems ys zs = true) :
    sameItems xs zs = true := by
  induction xs generalizing ys zs with
  | nil => cases ys <;> simp_all [sameItems]
  | cons item rest ih =>
    cases ys with
    | nil => simp [sameItems] at hxy
    | cons second others =>
      cases zs with
      | nil => simp [sameItems] at hyz
      | cons third remaining =>
        rw [sameItems, Bool.and_eq_true] at hxy hyz ⊢
        rw [List.forall_mem_cons] at h
        exact ⟨h.1 _ _ hxy.1 hyz.1, ih h.2 hxy.2 hyz.2⟩

theorem same_trans_of_not_isContainer (ha : a.isContainer = false) (hab : same a b = true)
    (hbc : same b c = true) : same a c = true := by
  rcases eq_or_double_of_same ha hab with rfl | ⟨x, y, rfl, rfl, hxy⟩
  · exact hbc
  · rcases eq_or_double_of_same rfl hbc with rfl | ⟨y', z, hy, rfl, hyz⟩
    · exact hab
    · cases hy
      rw [same]
      exact Double.same_trans hxy hyz

/-- Equality is transitive for all values, as a key that is found in the second is looked up in the
third. -/
theorem same_trans (hab : same a b = true) (hbc : same b c = true) : same a c = true := by
  induction a using inductionOn generalizing b c with
  | array items ih =>
    cases b <;> simp only [same, Bool.false_eq_true] at hab
    cases c <;> simp only [same, Bool.false_eq_true] at hbc
    rw [same]
    exact sameItems_trans (fun item hmem b c => ih item hmem) hab hbc
  | object entries ih =>
    cases b <;> simp only [same, Bool.false_eq_true] at hab
    cases c <;> simp only [same, Bool.false_eq_true] at hbc
    rw [Bool.and_eq_true, beq_iff_eq, agree_iff] at hab hbc
    rw [same, Bool.and_eq_true, beq_iff_eq, agree_iff]
    refine ⟨hab.1.trans hbc.1, ?_⟩
    intro entry hmem
    obtain ⟨second, hsecond, hsame⟩ := hab.2 entry hmem
    obtain ⟨third, hthird, hsame'⟩ := hbc.2 _ (Entries.mem_of_get? hsecond)
    exact ⟨third, hthird, ih entry hmem hsame hsame'⟩
  | null | bool _ | integer _ | double _ | text _ =>
    exact same_trans_of_not_isContainer rfl hab hbc

end Json

end Parcel
