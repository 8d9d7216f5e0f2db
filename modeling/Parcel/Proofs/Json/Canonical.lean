import Parcel.Proofs.Text.ByteOrder

/-!
# One canonical form for all orders of entries

The order of keys is strict on distinct keys, so sorting entries with unique keys forgets the order
they came in. Two values have the same canonical form exactly when they differ in the order of
entries only. Entries with unique keys that are inserted one by one stay in the order of insertion,
so a mapping may be built in any order.

## Main results

* `Entries.sorted_eq_of_perm`: sorting forgets the order of entries with unique keys
* `Json.canonical_eq_iff`: one canonical form for all orders of entries, and for nothing else
* `Entries.ofPairs_of_nodup`: inserting entries with unique keys
-/

namespace Parcel

/-! ## Sorting forgets the order -/

theorem keyOrder_antisymm {a b : String} (hab : keyOrder a b = true) (hba : keyOrder b a = true) :
    a = b := by
  rw [keyOrder_iff] at hab hba
  rcases hab with hlt | ⟨heq, hab⟩
  · omega
  · rcases hba with hlt | ⟨-, hba⟩
    · omega
    · exact Utf8.bytes_inj (List.le_antisymm hab hba)

namespace Entries

variable {as bs : Entries}

/-- **Sorting forgets the order** of entries with unique keys. -/
theorem sorted_eq_of_perm (h : as.Perm bs) (hnodup : (keys as).Nodup) : sorted as = sorted bs :=
  mergeSort_eq_of_perm keyOrder_trans keyOrder_total (fun _ _ => keyOrder_antisymm) h hnodup

/-! ## Insertion in any order -/

theorem insert_of_not_mem {entries : Entries} {key : String} {value : Json}
    (hnew : key ∉ keys entries) : insert entries key value = entries ++ [(key, value)] := by
  induction entries with
  | nil => rfl
  | cons entry rest ih =>
    obtain ⟨other, old⟩ := entry
    rw [keys_cons, List.mem_cons, not_or] at hnew
    rw [insert, if_neg fun heq => hnew.1 heq.symm, ih hnew.2, List.cons_append]

theorem foldl_insert_of_nodup {entries pairs : Entries} (hnodup : (keys (entries ++ pairs)).Nodup) :
    pairs.foldl (fun entries pair => insert entries pair.1 pair.2) entries = entries ++ pairs := by
  induction pairs generalizing entries with
  | nil => simp
  | cons pair rest ih =>
    have hnew : pair.1 ∉ keys entries := by
      rw [keys, List.map_append, List.map_cons] at hnodup
      intro hmem
      exact List.disjoint_of_nodup_append hnodup hmem List.mem_cons_self
    rw [List.foldl_cons, insert_of_not_mem hnew, ih (by simpa using hnodup)]
    simp

/-- Entries with unique keys that are inserted one by one stay as they come. -/
theorem ofPairs_of_nodup {pairs : Entries} (hnodup : (keys pairs).Nodup) : ofPairs pairs = pairs :=
  foldl_insert_of_nodup hnodup

end Entries

namespace Json

variable {a b : Json} {as bs cs : Entries} {xs ys : List Json}

/-! ## From reordered values to one canonical form -/

theorem canonicalEntries_perm {α : Type} {key : α → String} {value : α → Json} {pairs : List α}
    (h : as.Perm (pairs.map fun pair => (key pair, value pair))) :
    (canonicalEntries as).Perm (pairs.map fun pair => (key pair, (value pair).canonical)) := by
  have hmap := h.map fun entry : String × Json => (entry.1, entry.2.canonical)
  rwa [List.map_map, ← canonicalEntries_eq_map] at hmap

/-- **The canonical form forgets the order of entries**, at every level. -/
theorem Reordered.canonical_eq (h : Reordered a b) (ha : Proper a) : a.canonical = b.canonical := by
  induction h with
  | scalar hv => rfl
  | array pairs inside ih =>
    rw [proper_array, List.forall_mem_map] at ha
    simp only [canonical, canonicalItems_eq_map, List.map_map]
    exact congrArg Json.array (List.map_congr_left fun pair hmem => ih pair hmem (ha pair hmem))
  | @object as bs pairs left right inside ih =>
    obtain ⟨hnodup, hproper⟩ := proper_object.1 ha
    simp only [left.mem_iff, List.forall_mem_map] at hproper
    -- both objects hold the canonical entries of the pairs, in some order
    have hsame : (pairs.map fun pair => (pair.1, pair.2.1.canonical)) =
        pairs.map fun pair => (pair.1, pair.2.2.canonical) :=
      List.map_congr_left fun pair hmem =>
        congrArg (Prod.mk pair.1) (ih pair hmem (hproper pair hmem))
    have hperm := (canonicalEntries_perm left).trans
      (hsame ▸ (canonicalEntries_perm right).symm)
    rw [canonical, canonical]
    refine congrArg Json.object (Entries.sorted_eq_of_perm hperm ?_)
    rwa [keys_canonicalEntries]

/-! ## From one canonical form to reordered values -/

/-- Two lists related item by item are the two sides of one list of pairs. -/
theorem exists_pairs_of_forall₂ {α β : Type} {r : α → β → Prop} {as : List α} {bs : List β}
    (h : List.Forall₂ r as bs) : ∃ pairs : List (α × β),
      as = pairs.map Prod.fst ∧ bs = pairs.map Prod.snd ∧ ∀ pair ∈ pairs, r pair.1 pair.2 := by
  obtain ⟨hlength, hinside⟩ := List.forall₂_iff_zip.1 h
  exact ⟨as.zip bs, (List.map_fst_zip (Nat.le_of_eq hlength)).symm,
    (List.map_snd_zip (Nat.le_of_eq hlength.symm)).symm, fun _ hmem => hinside hmem⟩

/-- Arrays whose items are reordered one by one. -/
theorem reordered_array (h : List.Forall₂ Reordered xs ys) :
    Reordered (.array xs) (.array ys) := by
  obtain ⟨pairs, rfl, rfl, hinside⟩ := exists_pairs_of_forall₂ h
  exact .array pairs hinside

/-- Entries that have the same keys and related values, in a suitable order, are matched key by
key. -/
theorem exists_pairs_of_entries {r : Json → Json → Prop}
    (h : List.Forall₂ (fun entry other => entry.1 = other.1 ∧ r entry.2 other.2) as cs)
    (hperm : cs.Perm bs) : ∃ pairs : List (String × Json × Json),
      as.Perm (pairs.map fun pair => (pair.1, pair.2.1)) ∧
        bs.Perm (pairs.map fun pair => (pair.1, pair.2.2)) ∧
        ∀ pair ∈ pairs, r pair.2.1 pair.2.2 := by
  obtain ⟨pairs, rfl, rfl, hinside⟩ := exists_pairs_of_forall₂ h
  refine ⟨pairs.map fun pair => (pair.1.1, pair.1.2, pair.2.2), ?_, ?_,
    List.forall_mem_map.2 fun pair hmem => (hinside pair hmem).2⟩
  · simp [Function.comp_def]
  · have hkeys : pairs.map Prod.snd = pairs.map fun pair => (pair.1.1, pair.2.2) :=
      List.map_congr_left fun pair hmem => Prod.ext (hinside pair hmem).1.symm rfl
    rw [List.map_map]
    exact hperm.symm.trans (.of_eq hkeys)

/-- Objects whose entries, in a suitable order, have the same keys and reordered values. -/
theorem reordered_object
    (h : List.Forall₂ (fun entry other => entry.1 = other.1 ∧ Reordered entry.2 other.2) as cs)
    (hperm : cs.Perm bs) : Reordered (.object as) (.object bs) := by
  obtain ⟨pairs, hleft, hright, hinside⟩ := exists_pairs_of_entries h hperm
  exact .object pairs hleft hright hinside

theorem isContainer_canonical (v : Json) : v.canonical.isContainer = v.isContainer := by
  cases v <;> rfl

theorem canonical_of_not_isContainer {v : Json} (hv : v.isContainer = false) :
    v.canonical = v := by
  cases v with
  | array items => contradiction
  | object entries => contradiction
  | _ => rfl

/-- Objects with the same canonical entries have, in a suitable order, the same keys and values with
the same canonical form. -/
theorem exists_perm_of_sorted_canonicalEntries_eq
    (h : Entries.sorted (canonicalEntries as) = Entries.sorted (canonicalEntries bs)) :
    ∃ cs : Entries, List.Forall₂ (fun entry other => entry.1 = other.1 ∧
      entry.2.canonical = other.2.canonical) as cs ∧ cs.Perm bs := by
  have hsorted : (canonicalEntries as).Perm (Entries.sorted (canonicalEntries bs)) :=
    h ▸ (List.mergeSort_perm _ _).symm
  have hperm := hsorted.trans (List.mergeSort_perm _ _)
  rw [canonicalEntries_eq_map, canonicalEntries_eq_map] at hperm
  -- each canonical entry of the second object comes from one of its entries
  have horigin : List.Forall₂ (fun canonicalEntry entry : String × Json =>
      canonicalEntry = (entry.1, entry.2.canonical))
      (bs.map fun entry => (entry.1, entry.2.canonical)) bs :=
    List.forall₂_map_left_iff.2 (List.forall₂_same.2 fun _ _ => rfl)
  obtain ⟨cs, hentries, hcs⟩ := List.perm_comp_forall₂ hperm horigin
  refine ⟨cs, (List.forall₂_map_left_iff.1 hentries).imp ?_, hcs⟩
  intro entry other heq
  exact Prod.mk.inj heq

/-- **Nothing but the order of entries is forgotten** by the canonical form. -/
theorem reordered_of_canonical_eq (h : a.canonical = b.canonical) : Reordered a b := by
  induction a using inductionOn generalizing b with
  | array items ih =>
    cases b with
    | array others =>
      simp only [canonical, canonicalItems_eq_map, array.injEq] at h
      rw [← List.forall₂_eq_eq_eq, List.forall₂_map_left_iff, List.forall₂_map_right_iff] at h
      have hitems := (List.forall₂_and_left items others).2 ⟨ih, h⟩
      exact reordered_array (hitems.imp fun item other hitem => hitem.1 hitem.2)
    | _ => contradiction
  | object entries ih =>
    cases b with
    | object others =>
      simp only [canonical, object.injEq] at h
      obtain ⟨cs, hentries, hperm⟩ := exists_perm_of_sorted_canonicalEntries_eq h
      refine reordered_object (((List.forall₂_and_left entries cs).2 ⟨ih, hentries⟩).imp ?_) hperm
      rintro entry other ⟨hentry, hkey, hvalue⟩
      exact ⟨hkey, hentry hvalue⟩
    | _ => contradiction
  | _ =>
    -- a value whose canonical form is a scalar is that scalar
    have hb : b.isContainer = false := by
      rw [← isContainer_canonical, ← h]
      rfl
    rw [canonical_of_not_isContainer hb] at h
    exact h ▸ .scalar rfl

theorem Reordered.refl (v : Json) : Reordered v v :=
  reordered_of_canonical_eq rfl

/-- Objects with the same entries in any order. -/
theorem reordered_of_perm (h : as.Perm bs) : Reordered (.object as) (.object bs) :=
  reordered_object (List.forall₂_same.2 fun entry _ => ⟨rfl, .refl entry.2⟩) h

/-- **One canonical form for all orders of entries**, and for nothing else. -/
theorem canonical_eq_iff (ha : Proper a) : a.canonical = b.canonical ↔ Reordered a b :=
  ⟨reordered_of_canonical_eq, fun h => h.canonical_eq ha⟩

end Json

end Parcel
