import Parcel.Proofs.Json.Doubles
import Parcel.Proofs.Json.Equality

/-!
# Equal values with the same text

Equal values need not be written alike: the entries of an object are written in their own order, and
the two zeros are written with their signs. Nothing else can make a difference. What is written is
read back with all entries in their places, and with every zero as it was; so equal values with the
same text are the same, whatever follows them in a longer text.

## Main results

* `Json.eq_of_mapDoubles_eq`: equal values that are the same after something was made of their
  doubles
* `Json.eq_of_render_append_eq`: equal values at the front of the same text
-/

namespace Parcel

variable {as bs cs : Entries}

/-- Entries in another order that have their keys in the same order are in the same order. -/
theorem Entries.eq_of_perm_of_keys_eq (h : as.Perm bs) (hkeys : keys as = keys bs)
    (hnodup : (keys bs).Nodup) : as = bs := by
  refine List.ext_getElem h.length_eq ?_
  intro i hleft hright
  -- the entries at one place have the same key, and there is one entry with this key
  have hkey : as[i].1 = bs[i].1 := by
    have hat := congrArg (fun keys : List String => keys[i]?) hkeys
    simpa [keys, hleft, hright] using hat
  have hmem : as[i] ∈ bs := h.mem_iff.1 (List.getElem_mem hleft)
  exact List.inj_on_of_nodup_map hnodup hmem (List.getElem_mem hright) hkey

namespace Json

variable {f : Double → Double} {a b : Json} {xs ys : List Json} {rest rest' : List Char}

/-! ## What was made of doubles -/

/-- Values that are kept apart when `f` is applied to their doubles: they are the same if what is
made of them is. -/
def KeptApart (f : Double → Double) (a b : Json) : Prop :=
  a.mapDoubles f = b.mapDoubles f → a = b

/-- Equal scalars differ in the signs of zeros only, and zeros are left as they are. -/
theorem keptApart_scalar (hf : ∀ x : Double, x.isFinite = true → x.isZero = true → f x = x)
    (hscalar : a.isContainer = false) (ha : ProperHere a) (hb : ProperHere b)
    (h : same a b = true) : KeptApart f a b := by
  intro hmap
  rcases eq_or_double_of_same hscalar h with rfl | ⟨x, y, rfl, rfl, hxy⟩
  · rfl
  · rw [Double.same, Bool.or_eq_true, Bool.and_eq_true, Bool.and_eq_true] at hxy
    rcases hxy with ⟨hx, hy⟩ | ⟨heq, -⟩
    · rw [mapDoubles, mapDoubles, hf x ha hx, hf y hb hy] at hmap
      exact hmap
    · rw [eq_of_beq heq]

/-- Lists whose images are the same, item by item. -/
theorem forall₂_of_map_eq {α β : Type} {g : α → β} {xs ys : List α} (h : xs.map g = ys.map g) :
    List.Forall₂ (fun x y => g x = g y) xs ys := by
  rw [← List.forall₂_eq_eq_eq] at h
  exact List.forall₂_map_right_iff.1 (List.forall₂_map_left_iff.1 h)

theorem keptApart_array (h : List.Forall₂ (KeptApart f) xs ys) :
    KeptApart f (.array xs) (.array ys) := by
  intro hmap
  rw [mapDoubles, mapDoubles, mapDoublesOfItems_eq_map, mapDoublesOfItems_eq_map] at hmap
  have hitems : List.Forall₂ (· = ·) xs ys :=
    h.mp (fun _ _ hapart => hapart) (forall₂_of_map_eq (array.inj hmap))
  rw [List.forall₂_eq_eq_eq] at hitems
  rw [hitems]

theorem keptApart_object (hnodup : (Entries.keys as).Nodup)
    (h : List.Forall₂ (fun entry other => entry.1 = other.1 ∧ KeptApart f entry.2 other.2) as cs)
    (hperm : cs.Perm bs) : KeptApart f (.object as) (.object bs) := by
  intro hmap
  rw [mapDoubles, mapDoubles] at hmap
  have hentries := object.inj hmap
  have hkeys : Entries.keys as = Entries.keys bs := by
    rw [← keys_mapDoublesOfEntries, hentries, keys_mapDoublesOfEntries]
  -- the entries that equality matches are those at the same places
  have hmatched : Entries.keys as = Entries.keys cs := by
    rw [← List.forall₂_eq_eq_eq]
    exact List.forall₂_map_left_iff.2
      (List.forall₂_map_right_iff.2 (h.imp fun _ _ hboth => hboth.1))
  obtain rfl := Entries.eq_of_perm_of_keys_eq hperm (hmatched.symm.trans hkeys) (hkeys ▸ hnodup)
  rw [mapDoublesOfEntries_eq_map, mapDoublesOfEntries_eq_map] at hentries
  have hsame : List.Forall₂ (· = ·) as cs := by
    refine h.mp ?_ (forall₂_of_map_eq hentries)
    rintro entry other ⟨hkey, hapart⟩ hvalue
    exact Prod.ext hkey (hapart (Prod.mk.inj hvalue).2)
  rw [List.forall₂_eq_eq_eq] at hsame
  rw [hsame]

/-- **Equal values that are the same** after something was made of their doubles that leaves zeros
as they are, were the same before. -/
theorem eq_of_mapDoubles_eq (hf : ∀ x : Double, x.isFinite = true → x.isZero = true → f x = x)
    (ha : Proper a) (hb : Proper b) (h : same a b = true)
    (hmap : a.mapDoubles f = b.mapDoubles f) : a = b := by
  have hapart : KeptApart f a b := by
    refine related_of_same ?_ ?_ ?_ (fun _ hhere => hhere) ha hb h
    · intro a b hscalar ha hb hsame
      exact keptApart_scalar hf hscalar ha hb hsame
    · intro xs ys hitems
      exact keptApart_array hitems
    · intro as bs cs hnodup hentries hperm
      exact keptApart_object hnodup hentries hperm
  exact hapart hmap

/-! ## At the front of a text -/

/-- **Equal values at the front of the same text** are the same, and the same follows them. -/
theorem eq_of_render_append_eq (ha : Proper a) (hb : Proper b) (h : same a b = true)
    (hrest : Numeral.Ends rest) (hrest' : Numeral.Ends rest')
    (htext : render a ++ rest = render b ++ rest') : a = b ∧ rest = rest' := by
  -- both are read from this text, at a level that suffices for both
  have hread := readValue?_render ha (reread_of_proper ha) (Nat.le_max_left _ b.depth) hrest
  have hread' := readValue?_render hb (reread_of_proper hb) (Nat.le_max_right a.depth _) hrest'
  rw [htext, hread', Option.some_inj, Prod.mk.injEq] at hread
  refine ⟨eq_of_mapDoubles_eq ?_ ha hb h hread.1.symm, hread.2.symm⟩
  intro x hx
  exact (Double.survives_reread hx).eq_of_isZero

end Json

end Parcel
