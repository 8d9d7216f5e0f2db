import Parcel.Json.Canonical
import Parcel.Json.Equality
import Parcel.Proofs.Json.Depth
import Parcel.Proofs.Json.Parts

/-!
# Arrangements of entries

The canonical form of a value is the value with the entries of every object put in the order of
their keys, and nothing else. Values that differ in the order of entries only have the same depth
and the same kinds of parts, and they are equal.

## Main definitions

* `KeyBefore`: the shorter key first, and keys of one length by their bytes
* `Json.Ordered`: every object lists its keys in that order
* `Json.Reordered`: two values that differ in the order of entries only

## Main results

* `reordered_canonical`, `ordered_canonical`: the canonical form is the value in canonical order
* `Reordered.depth_eq`, `Reordered.proper`, `Reordered.addressable`: what the order of entries
  leaves alone
* `Reordered.same`: values that differ in the order of entries only are equal
-/

namespace Parcel

/-! ## The order of keys -/

/-- The shorter key comes first, and of two keys of one length the one with the lesser bytes. -/
def KeyBefore (a b : String) : Prop :=
  a.utf8ByteSize < b.utf8ByteSize ∨
    (a.utf8ByteSize = b.utf8ByteSize ∧ Utf8.bytes a < Utf8.bytes b)

theorem Utf8.bytes_inj {a b : String} (h : Utf8.bytes a = Utf8.bytes b) : a = b := by
  have htext := congrArg Utf8.text? h
  rwa [Utf8.text?_bytes, Utf8.text?_bytes, Option.some.injEq] at htext

theorem keyOrder_iff {a b : String} :
    keyOrder a b = true ↔ a.utf8ByteSize < b.utf8ByteSize ∨
      (a.utf8ByteSize = b.utf8ByteSize ∧ Utf8.bytes a ≤ Utf8.bytes b) := by
  simp [keyOrder, Utf8.byteOrder]

theorem keyOrder_trans (a b c : String) (hab : keyOrder a b = true) (hbc : keyOrder b c = true) :
    keyOrder a c = true := by
  rw [keyOrder_iff] at *
  rcases hab with hab | ⟨hab, hab'⟩
  · exact .inl (by omega)
  · rcases hbc with hbc | ⟨hbc, hbc'⟩
    · exact .inl (by omega)
    · exact .inr ⟨hab.trans hbc, List.le_trans hab' hbc'⟩

theorem keyOrder_total (a b : String) : (keyOrder a b || keyOrder b a) = true := by
  rw [Bool.or_eq_true, keyOrder_iff, keyOrder_iff]
  rcases Nat.lt_trichotomy a.utf8ByteSize b.utf8ByteSize with hlt | heq | hlt
  · exact .inl (.inl hlt)
  · exact (List.le_total (Utf8.bytes a) (Utf8.bytes b)).imp (fun h => .inr ⟨heq, h⟩)
      fun h => .inr ⟨heq.symm, h⟩
  · exact .inr (.inl hlt)

/-- Distinct keys that are in order are strictly in order. -/
theorem keyBefore_of_keyOrder {a b : String} (h : keyOrder a b = true) (hne : a ≠ b) :
    KeyBefore a b := by
  rcases keyOrder_iff.1 h with hlt | ⟨heq, hle⟩
  · exact .inl hlt
  · rcases List.le_iff_lt_or_eq.1 hle with hlt | hbytes
    · exact .inr ⟨heq, hlt⟩
    · exact absurd (Utf8.bytes_inj hbytes) hne

/-- A pair whose first part occurs once is the one that is found. -/
theorem lookup_eq_some_of_mem {α β : Type} [BEq α] [LawfulBEq α] {pairs : List (α × β)} {a : α}
    {b : β} (hnodup : (pairs.map Prod.fst).Nodup) (hmem : (a, b) ∈ pairs) :
    pairs.lookup a = some b := by
  induction pairs with
  | nil => contradiction
  | cons first rest ih =>
    obtain ⟨a', b'⟩ := first
    rw [List.map_cons, List.nodup_cons] at hnodup
    rw [List.lookup_cons]
    rcases List.mem_cons.1 hmem with heq | hrest
    · obtain ⟨rfl, rfl⟩ := Prod.mk.inj heq
      simp
    · have hne : a ≠ a' := fun heq => hnodup.1 (heq ▸ List.mem_map.2 ⟨(a, b), hrest, rfl⟩)
      rw [beq_false_of_ne hne]
      exact ih hnodup.2 hrest

namespace Json

variable {a b v : Json} {as bs : Entries}

/-- The keys of an object come in the canonical order. -/
def OrderedHere : Json → Prop
  | .object entries => (Entries.keys entries).Pairwise KeyBefore
  | _ => True

/-- **Canonical order**: every object lists its keys in the canonical order, none of them twice. -/
abbrev Ordered : Json → Prop := Every OrderedHere

/-- **Reorderings**: two values that differ in the order of entries only, at any levels. The entries
of two objects are matched key by key. -/
inductive Reordered : Json → Json → Prop
  | scalar {v : Json} (hv : v.isContainer = false) : Reordered v v
  | array (pairs : List (Json × Json)) (inside : ∀ pair ∈ pairs, Reordered pair.1 pair.2) :
      Reordered (.array (pairs.map Prod.fst)) (.array (pairs.map Prod.snd))
  | object {as bs : Entries} (pairs : List (String × Json × Json))
      (left : as.Perm (pairs.map fun pair => (pair.1, pair.2.1)))
      (right : bs.Perm (pairs.map fun pair => (pair.1, pair.2.2)))
      (inside : ∀ pair ∈ pairs, Reordered pair.2.1 pair.2.2) :
      Reordered (.object as) (.object bs)

/-! ## The canonical form -/

/-- The canonical form has the same parts as the value, its entries in some order. -/
theorem reordered_canonical (v : Json) : Reordered v v.canonical := by
  induction v using inductionOn with
  | array items ih =>
    have h := Reordered.array (items.map fun item => (item, item.canonical))
      (List.forall_mem_map.2 ih)
    simpa [canonical, canonicalItems_eq_map, Function.comp_def] using h
  | object entries ih =>
    refine .object (entries.map fun entry => (entry.1, entry.2, entry.2.canonical)) ?_ ?_
      (List.forall_mem_map.2 ih)
    · simp [Function.comp_def]
    · simp only [List.map_map, Function.comp_def, ← canonicalEntries_eq_map]
      exact List.mergeSort_perm _ _
  | _ => exact .scalar rfl

theorem pairwise_keyOrder_sorted (entries : Entries) :
    (Entries.keys (Entries.sorted entries)).Pairwise fun a b => keyOrder a b = true :=
  List.pairwise_map.2 (List.pairwise_mergeSort (fun a b c => keyOrder_trans a.1 b.1 c.1)
    (fun a b => keyOrder_total a.1 b.1) entries)

theorem keys_sorted_perm (entries : Entries) :
    (Entries.keys (Entries.sorted entries)).Perm (Entries.keys entries) :=
  (List.mergeSort_perm _ _).map _

/-- Sorting gives the order of keys, and unique keys make it strict. -/
theorem pairwise_keyBefore_sorted {entries : Entries} (hnodup : (Entries.keys entries).Nodup) :
    (Entries.keys (Entries.sorted entries)).Pairwise KeyBefore :=
  ((pairwise_keyOrder_sorted entries).and ((keys_sorted_perm entries).nodup_iff.2 hnodup)).imp
    fun h => keyBefore_of_keyOrder h.1 h.2

theorem keys_canonicalEntries (entries : Entries) :
    Entries.keys (canonicalEntries entries) = Entries.keys entries := by
  simp [canonicalEntries_eq_map, Entries.keys]

/-- The canonical form of a proper value is in canonical order. -/
theorem ordered_canonical (hv : Proper v) : Ordered v.canonical := by
  induction v using inductionOn with
  | array items ih =>
    rw [canonical, canonicalItems_eq_map]
    refine every_array.2 ⟨trivial, List.forall_mem_map.2 ?_⟩
    intro item hmem
    exact ih item hmem (proper_array.1 hv item hmem)
  | object entries ih =>
    obtain ⟨hnodup, hinside⟩ := proper_object.1 hv
    refine every_object.2 ⟨?_, ?_⟩
    · exact pairwise_keyBefore_sorted (by rwa [keys_canonicalEntries])
    · intro entry hmem
      -- sorting only moves the entries
      rw [Entries.sorted, List.mem_mergeSort, canonicalEntries_eq_map] at hmem
      obtain ⟨entry, hentry, rfl⟩ := List.mem_map.1 hmem
      exact ih entry hentry (hinside entry hentry)
  | _ => exact (every_of_not_isContainer rfl).2 trivial

/-! ## What the order of entries leaves alone -/

theorem Reordered.symm (h : Reordered a b) : Reordered b a := by
  induction h with
  | scalar hv => exact .scalar hv
  | array pairs inside ih =>
    have h := Reordered.array (pairs.map Prod.swap) (List.forall_mem_map.2 ih)
    simpa [Function.comp_def] using h
  | object pairs left right inside ih =>
    refine .object (pairs.map fun pair => (pair.1, pair.2.2, pair.2.1)) ?_ ?_
      (List.forall_mem_map.2 ih)
    · simpa [Function.comp_def] using right
    · simpa [Function.comp_def] using left

theorem Reordered.depth_le_iff (h : Reordered a b) (n : Nat) : a.depth ≤ n ↔ b.depth ≤ n := by
  -- bounds are compared child by child, which depths themselves are not
  induction h generalizing n with
  | scalar hv => rfl
  | array pairs inside ih =>
    cases n with
    | zero => exact iff_of_false not_depth_array_le_zero not_depth_array_le_zero
    | succ n =>
      rw [depth_array_le_succ, depth_array_le_succ, List.forall_mem_map, List.forall_mem_map]
      exact forall₂_congr fun pair hmem => ih pair hmem n
  | object pairs left right inside ih =>
    cases n with
    | zero => exact iff_of_false not_depth_object_le_zero not_depth_object_le_zero
    | succ n =>
      simp only [depth_object_le_succ, left.mem_iff, right.mem_iff, List.forall_mem_map]
      exact forall₂_congr fun pair hmem => ih pair hmem n

theorem Reordered.depth_eq (h : Reordered a b) : a.depth = b.depth :=
  Nat.le_antisymm ((h.depth_le_iff _).2 (Nat.le_refl _)) ((h.depth_le_iff _).1 (Nat.le_refl _))

/-- A property of all parts survives reordering if it does not look at the order of entries. -/
theorem Reordered.every {p : Json → Prop} (hp : ∀ a b, Reordered a b → p a → p b)
    (h : Reordered a b) (ha : Every p a) : Every p b := by
  induction h with
  | scalar hv => exact ha
  | array pairs inside ih =>
    obtain ⟨hhere, hinside⟩ := every_array.1 ha
    refine every_array.2 ⟨hp _ _ (.array pairs inside) hhere, ?_⟩
    rw [List.forall_mem_map] at hinside ⊢
    exact fun pair hmem => ih pair hmem (hinside pair hmem)
  | object pairs left right inside ih =>
    obtain ⟨hhere, hinside⟩ := every_object.1 ha
    refine every_object.2 ⟨hp _ _ (.object pairs left right inside) hhere, ?_⟩
    simp only [left.mem_iff, right.mem_iff, List.forall_mem_map] at hinside ⊢
    exact fun pair hmem => ih pair hmem (hinside pair hmem)

theorem Reordered.keys_perm (h : Reordered (.object as) (.object bs)) :
    (Entries.keys as).Perm (Entries.keys bs) := by
  cases h with
  | scalar hv => contradiction
  | object pairs left right inside =>
    have hleft := left.map Prod.fst
    have hright := right.map Prod.fst
    rw [List.map_map] at hleft hright
    exact hleft.trans hright.symm

theorem Reordered.length_eq (h : Reordered (.object as) (.object bs)) : as.length = bs.length := by
  simpa [Entries.keys] using h.keys_perm.length_eq

theorem Reordered.proper (h : Reordered a b) (ha : Proper a) : Proper b := by
  refine h.every ?_ ha
  intro a b hab hhere
  cases hab with
  | scalar hv => exact hhere
  | array pairs inside => trivial
  | object pairs left right inside =>
    exact (Reordered.keys_perm (.object pairs left right inside)).nodup_iff.1 hhere

theorem Reordered.addressable (h : Reordered a b) (ha : Addressable a) : Addressable b := by
  refine h.every ?_ ha
  intro a b hab hhere
  cases hab with
  | scalar hv => exact hhere
  | array pairs inside => simpa [AddressableHere] using hhere
  | object pairs left right inside =>
    have hobject := Reordered.object pairs left right inside
    exact ⟨hobject.length_eq ▸ hhere.1,
      fun key hmem => hhere.2 key (hobject.keys_perm.mem_iff.2 hmem)⟩

/-! ## Equality -/

theorem agree_iff : agree as bs = true ↔
    ∀ entry ∈ as, ∃ other, Entries.get? bs entry.1 = some other ∧ same entry.2 other = true := by
  induction as with
  | nil => simp [agree]
  | cons first rest ih =>
    obtain ⟨key, value⟩ := first
    rw [agree, Bool.and_eq_true, ih, List.forall_mem_cons]
    refine and_congr_left fun _ => ?_
    cases Entries.get? bs key <;> simp

theorem sameItems_map {pairs : List (Json × Json)}
    (h : ∀ pair ∈ pairs, same pair.1 pair.2 = true) :
    sameItems (pairs.map Prod.fst) (pairs.map Prod.snd) = true := by
  induction pairs with
  | nil => rfl
  | cons pair rest ih =>
    rw [List.forall_mem_cons] at h
    simp [sameItems, h.1, ih h.2]

theorem same_double_self {x : Double} (hx : x.isFinite = true) : x.same x = true := by
  simp [Double.same, Double.isNaN, hx]

/-- **Equality ignores the order of entries.** -/
theorem Reordered.same (h : Reordered a b) (ha : Proper a) : same a b = true := by
  induction h with
  | @scalar v hv =>
    cases v with
    | double x => exact same_double_self (proper_double.1 ha)
    | array items => contradiction
    | object entries => contradiction
    | _ => simp [Json.same]
  | array pairs inside ih =>
    rw [proper_array, List.forall_mem_map] at ha
    rw [Json.same]
    exact sameItems_map fun pair hmem => ih pair hmem (ha pair hmem)
  | object pairs left right inside ih =>
    have hobject := Reordered.object pairs left right inside
    obtain ⟨hnodup, hinside⟩ := proper_object.1 ha
    rw [Json.same, Bool.and_eq_true, agree_iff]
    refine ⟨by simpa using hobject.length_eq, ?_⟩
    intro entry hmem
    -- the other object has the key once, so the pair matched with the entry is the one found
    obtain ⟨pair, hpair, rfl⟩ := List.mem_map.1 (left.mem_iff.1 hmem)
    have hright := right.mem_iff.2 (List.mem_map_of_mem hpair)
    exact ⟨pair.2.2, lookup_eq_some_of_mem (hobject.keys_perm.nodup_iff.1 hnodup) hright,
      ih pair hpair (hinside _ hmem)⟩

end Json

end Parcel
