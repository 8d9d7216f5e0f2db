import Mathlib.Data.List.Nodup
import Mathlib.Data.List.Perm.Basic
import Parcel.Proofs.Json.Arrangement

/-!
# Keys in order

Pairs that are sorted by their keys come out in one order only, if the keys are unique: it makes no
difference in which order they came in. The order by bytes is such an order of keys.

## Main results

* `mergeSort_eq_of_perm`: sorting by unique keys forgets the order
* `Utf8.byteOrder_trans`, `Utf8.byteOrder_total`, `Utf8.byteOrder_antisymm`: the order by bytes
-/

namespace Parcel

variable {α : Type} {le : String → String → Bool} {as bs : List (String × α)}

/-- **Sorting by keys forgets the order** of pairs with unique keys. -/
theorem mergeSort_eq_of_perm
    (htrans : ∀ a b c, le a b = true → le b c = true → le a c = true)
    (htotal : ∀ a b, (le a b || le b a) = true)
    (hantisymm : ∀ a b, le a b = true → le b a = true → a = b)
    (h : as.Perm bs) (hnodup : (as.map Prod.fst).Nodup) :
    as.mergeSort (fun a b => le a.1 b.1) = bs.mergeSort fun a b => le a.1 b.1 := by
  have hsorted (pairs : List (String × α)) :
      (pairs.mergeSort fun a b => le a.1 b.1).Pairwise fun a b => le a.1 b.1 = true :=
    List.pairwise_mergeSort (fun a b c => htrans a.1 b.1 c.1) (fun a b => htotal a.1 b.1) pairs
  have hperm := (List.mergeSort_perm as fun a b => le a.1 b.1).trans
    (h.trans (List.mergeSort_perm bs fun a b => le a.1 b.1).symm)
  refine hperm.eq_of_pairwise ?_ (hsorted as) (hsorted bs)
  -- pairs that come before each other have the same key, and a key occurs once
  intro pair other hpair hother hle hge
  exact List.inj_on_of_nodup_map hnodup (List.mem_mergeSort.1 hpair)
    (h.mem_iff.2 (List.mem_mergeSort.1 hother)) (hantisymm _ _ hle hge)

namespace Utf8

theorem byteOrder_trans (a b c : String) (hab : byteOrder a b = true) (hbc : byteOrder b c = true) :
    byteOrder a c = true := by
  rw [byteOrder, decide_eq_true_eq] at *
  exact List.le_trans hab hbc

theorem byteOrder_total (a b : String) : (byteOrder a b || byteOrder b a) = true := by
  rw [Bool.or_eq_true, byteOrder, byteOrder, decide_eq_true_eq, decide_eq_true_eq]
  exact List.le_total (bytes a) (bytes b)

theorem byteOrder_antisymm (a b : String) (hab : byteOrder a b = true)
    (hba : byteOrder b a = true) :
    a = b := by
  rw [byteOrder, decide_eq_true_eq] at hab hba
  exact bytes_inj (List.le_antisymm hab hba)

end Utf8

end Parcel
