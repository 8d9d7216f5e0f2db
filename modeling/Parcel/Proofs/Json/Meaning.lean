import Parcel.Proofs.Json.Canonical
import Parcel.Proofs.Json.Depth
import Parcel.Proofs.Json.Range
import Parcel.Proofs.Json.Spelling

/-!
# What valid texts stand for

A valid text stands for a value if each of its numbers is in the range and each half of a pair among
its escapes is next to the other half. The value nests no deeper than its text. Where the keys of
every object differ it nests exactly as deep; of a key that occurs again the former value is gone,
and its depth with it.

## Main definitions

* `Piece.Paired`: no half of a pair stands alone
* `Spelling.Ordinary`: the texts that stand for a value in any case
* `Spelling.KeysDiffer`: no key occurs twice in an object

## Main results

* `Spelling.exists_value?_eq`: ordinary texts stand for a value
* `Spelling.depth_le`, `Spelling.depth_eq`: the depth of a value and of its text
-/

namespace Parcel.Json

/-! ## Pairs of escapes -/

/-- An escape that is half of a pair. -/
def Piece.IsHalf : Piece → Prop
  | .unit _ _ _ _ number _ => isLeading number = true ∨ isTrailing number = true
  | _ => False

/-- **Halves of pairs only come in pairs**, the first half in front of the second one. -/
inductive Piece.Paired : List Piece → Prop
  | nil : Paired []
  | cons {piece : Piece} {rest : List Piece} (whole : ¬piece.IsHalf) (others : Paired rest) :
      Paired (piece :: rest)
  | pair {a b c d a' b' c' d' : Char} {leading trailing : Nat} {rest : List Piece}
      {digits : hexUnit? a b c d = some leading} {digits' : hexUnit? a' b' c' d' = some trailing}
      (first : isLeading leading = true) (second : isTrailing trailing = true)
      (others : Paired rest) :
      Paired (.unit a b c d leading digits :: .unit a' b' c' d' trailing digits' :: rest)

/-- No number is the first half of a pair and the second one. -/
theorem isTrailing_eq_false {number : Nat} (h : isLeading number = true) :
    isTrailing number = false := by
  simp only [isLeading, isTrailing, Bool.and_eq_true, decide_eq_true_eq, Bool.and_eq_false_iff,
    decide_eq_false_iff_not] at *
  omega

/-- **Texts without lone halves** stand for their characters. -/
theorem Piece.Paired.exists_text?_eq {pieces : List Piece} (h : Paired pieces) :
    ∃ text, text? pieces = some text := by
  suffices hfound : ∃ found, characters? none pieces = some found by
    obtain ⟨found, hfound⟩ := hfound
    exact ⟨_, by rw [text?, hfound]; rfl⟩
  induction h with
  | nil => exact ⟨[], rfl⟩
  | @cons piece rest whole others ih =>
    obtain ⟨found, hfound⟩ := ih
    cases piece with
    | plain c space quote backslash => exact ⟨c :: found, by rw [characters?, hfound]; rfl⟩
    | short letter hletter =>
      obtain ⟨c, hc, -⟩ := exists_simpleEscape?_eq hletter
      exact ⟨c :: found, by rw [characters?, hc, hfound]; rfl⟩
    | unit a b c d number digits =>
      simp only [IsHalf, not_or, Bool.not_eq_true] at whole
      exact ⟨_, by rw [characters?, whole.1, whole.2, hfound]; rfl⟩
  | @pair a b c d a' b' c' d' leading trailing rest digits digits' first second others ih =>
    obtain ⟨found, hfound⟩ := ih
    -- two halves that belong together are one character
    refine ⟨paired leading trailing :: found, ?_⟩
    simp [characters?, first, second, isTrailing_eq_false first, hfound]

/-! ## Values of a list -/

section

variable {α β : Type} {f : α → Option β} {l : List α} {found : List β}

/-- What is there for all elements of a list is there for the list. -/
theorem exists_mapM_eq (h : ∀ a ∈ l, ∃ b, f a = some b) : ∃ found, l.mapM f = some found := by
  induction l with
  | nil => exact ⟨[], rfl⟩
  | cons a l ih =>
    rw [List.forall_mem_cons] at h
    obtain ⟨b, hb⟩ := h.1
    obtain ⟨found, hfound⟩ := ih h.2
    exact ⟨b :: found, by rw [List.mapM_cons, hb, hfound]; rfl⟩

/-- What is found for a list is found for its elements one by one. -/
theorem map_eq_of_mapM (h : l.mapM f = some found) : l.map f = found.map some := by
  induction l generalizing found with
  | nil =>
    cases h
    rfl
  | cons a l ih =>
    simp only [List.mapM_cons, Option.bind_eq_bind, Option.bind_eq_some_iff, Option.pure_def,
      Option.some.injEq] at h
    obtain ⟨b, hb, rest, hrest, rfl⟩ := h
    rw [List.map_cons, List.map_cons, hb, ih hrest]

/-- Whatever is found for a list is found for one of its elements. -/
theorem exists_of_mem_mapM {b : β} (h : l.mapM f = some found) (hmem : b ∈ found) :
    ∃ a ∈ l, f a = some b := by
  have hmem' : some b ∈ l.map f := map_eq_of_mapM h ▸ List.mem_map_of_mem hmem
  exact List.mem_map.1 hmem'

theorem exists_mem_mapM {a : α} (h : l.mapM f = some found) (hmem : a ∈ l) :
    ∃ b ∈ found, f a = some b := by
  have hmem' : f a ∈ found.map some := map_eq_of_mapM h ▸ List.mem_map_of_mem hmem
  obtain ⟨b, hb, heq⟩ := List.mem_map.1 hmem'
  exact ⟨b, hb, heq.symm⟩

end

/-! ## Values -/

namespace Spelling

/-- **A text without numbers that are too large and without lone halves of pairs.** Numbers count as
too large from the greatest double but two on: above it some numbers in the range of doubles are
refused, as the example after `Numeral.exists_value?_eq` shows. -/
def Ordinary : Spelling → Prop
  | .number written => written.numeral.magnitude < Double.comfortable
  | .text pieces => Piece.Paired pieces
  | .array _ _ items => ∀ i, Ordinary (items i)
  | .object _ _ _ keys values => (∀ i, Piece.Paired (keys i)) ∧ ∀ i, Ordinary (values i)
  | _ => True

/-- **No key occurs twice** in any object of the text. -/
def KeysDiffer : Spelling → Prop
  | .array _ _ items => ∀ i, KeysDiffer (items i)
  | .object _ _ _ keys values =>
    (∀ i j, Piece.text? (keys i) = Piece.text? (keys j) → i = j) ∧ ∀ i, KeysDiffer (values i)
  | _ => True

variable {s : Spelling} {v : Json}

/-- **An ordinary text stands for a value.** -/
theorem exists_value?_eq (h : s.Ordinary) : ∃ v, s.value? = some v := by
  induction s with
  | null => exact ⟨_, rfl⟩
  | bool b => exact ⟨_, rfl⟩
  | number written => exact Numeral.exists_value?_eq written.isWhole.isDigit h
  | text pieces =>
    obtain ⟨text, htext⟩ := Piece.Paired.exists_text?_eq h
    exact ⟨.text text, by rw [value?, htext]; rfl⟩
  | emptyArray inside => exact ⟨_, rfl⟩
  | array more paddings items ih =>
    obtain ⟨found, hfound⟩ := exists_mapM_eq (l := List.finRange (more + 1)) fun i _ => ih i (h i)
    exact ⟨.array found, by rw [value?, hfound]; rfl⟩
  | emptyObject inside => exact ⟨_, rfl⟩
  | object more keyPaddings paddings keys values ih =>
    obtain ⟨hkeys, hvalues⟩ := h
    have hentry : ∀ i ∈ List.finRange (more + 1), ∃ entry, ((Piece.text? (keys i)).bind fun key =>
        (values i).value?.map fun v => (key, v)) = some entry := by
      intro i _
      obtain ⟨key, hkey⟩ := (hkeys i).exists_text?_eq
      obtain ⟨v, hv⟩ := ih i (hvalues i)
      exact ⟨(key, v), by rw [hkey, hv]; rfl⟩
    obtain ⟨found, hfound⟩ := exists_mapM_eq hentry
    exact ⟨.object (Entries.ofPairs found), by rw [value?, hfound]; rfl⟩

/-! ### Depth -/

theorem mem_foldl_insert {entries pairs : Entries} {entry : String × Json}
    (hmem : entry ∈ pairs.foldl (fun entries pair => Entries.insert entries pair.1 pair.2)
      entries) : entry ∈ entries ∨ entry ∈ pairs := by
  induction pairs generalizing entries with
  | nil => exact .inl hmem
  | cons pair pairs ih =>
    rcases ih hmem with hinsert | hrest
    · rcases mem_insert hinsert with rfl | hold
      · exact .inr List.mem_cons_self
      · exact .inl hold
    · exact .inr (List.mem_cons_of_mem _ hrest)

theorem mem_of_mem_ofPairs {pairs : Entries} {entry : String × Json}
    (hmem : entry ∈ Entries.ofPairs pairs) : entry ∈ pairs :=
  (mem_foldl_insert hmem).resolve_left List.not_mem_nil

theorem depth_of_numeral {n : Numeral} (h : n.value? = some v) : v.depth = 0 := by
  unfold Numeral.value? at h
  extract_lets magnitude integer at h
  split at h
  · cases h
    rfl
  · obtain ⟨x, -, rfl⟩ := Option.map_eq_some_iff.1 h
    rfl

section

variable {more : Nat} {keyPaddings paddings : Fin (more + 1) → Padding}
  {items values : Fin (more + 1) → Spelling} {keys : Fin (more + 1) → List Piece}

/-- The entry of a key and its value, if both stand for something. -/
theorem of_entry_eq_some {key : List Piece} {value : Spelling} {entry : String × Json}
    (h : ((Piece.text? key).bind fun key => value.value?.map fun v => (key, v)) = some entry) :
    Piece.text? key = some entry.1 ∧ value.value? = some entry.2 := by
  obtain ⟨text, htext, hentry⟩ := Option.bind_eq_some_iff.1 h
  obtain ⟨v, hv, rfl⟩ := Option.map_eq_some_iff.1 hentry
  exact ⟨htext, hv⟩

/-- The items of an array are those of its text. -/
theorem exists_of_value?_array (h : value? (.array more paddings items) = some v) :
    ∃ found, v = .array found ∧ (∀ item ∈ found, ∃ i, (items i).value? = some item) ∧
      ∀ i, ∃ item ∈ found, (items i).value? = some item := by
  obtain ⟨found, hfound, rfl⟩ := Option.map_eq_some_iff.1 h
  refine ⟨found, rfl, fun item hmem => ?_, fun i => ?_⟩
  · obtain ⟨i, -, hi⟩ := exists_of_mem_mapM hfound hmem
    exact ⟨i, hi⟩
  · obtain ⟨item, hmem, hi⟩ := exists_mem_mapM hfound (List.mem_finRange i)
    exact ⟨item, hmem, hi⟩

/-- The entries of an object are among those of its text. They are all there if the keys differ. -/
theorem exists_of_value?_object
    (h : value? (.object more keyPaddings paddings keys values) = some v) :
    ∃ found, v = .object found ∧
      (∀ entry ∈ found, ∃ i, Piece.text? (keys i) = some entry.1 ∧
        (values i).value? = some entry.2) ∧
      ((∀ i j, Piece.text? (keys i) = Piece.text? (keys j) → i = j) →
        ∀ i, ∃ entry ∈ found, Piece.text? (keys i) = some entry.1 ∧
          (values i).value? = some entry.2) := by
  obtain ⟨pairs, hpairs, rfl⟩ := Option.map_eq_some_iff.1 h
  refine ⟨Entries.ofPairs pairs, rfl, fun entry hmem => ?_, fun hdiffer i => ?_⟩
  · obtain ⟨i, -, hi⟩ := exists_of_mem_mapM hpairs (mem_of_mem_ofPairs hmem)
    exact ⟨i, of_entry_eq_some hi⟩
  · -- keys that differ in the spelling differ in the pairs, so no pair takes the place of another
    have hkeys : ((List.finRange (more + 1)).map fun i => Piece.text? (keys i)) =
        (Entries.keys pairs).map some := by
      have hsame := congrArg (List.map (Option.map Prod.fst)) (map_eq_of_mapM hpairs)
      rw [List.map_map, List.map_map] at hsame
      rw [Entries.keys, List.map_map]
      refine (List.map_congr_left fun i hi => ?_).trans hsame
      obtain ⟨entry, -, hentry⟩ := exists_mem_mapM hpairs hi
      exact (of_entry_eq_some hentry).1.trans (congrArg (Option.map Prod.fst) hentry).symm
    have hnodup : (Entries.keys pairs).Nodup := by
      refine List.Nodup.of_map some ?_
      rw [← hkeys]
      exact (List.nodup_finRange _).map fun i j => hdiffer i j
    rw [Entries.ofPairs_of_nodup hnodup]
    obtain ⟨entry, hmem, hi⟩ := exists_mem_mapM hpairs (List.mem_finRange i)
    exact ⟨entry, hmem, of_entry_eq_some hi⟩

end

/-- **A value nests no deeper than its text.** -/
theorem depth_le (h : s.value? = some v) : v.depth ≤ s.depth := by
  -- every item of the value comes from one of the spelling
  induction s generalizing v with
  | null =>
    cases h
    exact Nat.le_refl _
  | bool b =>
    cases h
    exact Nat.le_refl _
  | number written => exact (depth_of_numeral h).le
  | text pieces =>
    obtain ⟨text, -, rfl⟩ := Option.map_eq_some_iff.1 h
    exact Nat.le_refl _
  | emptyArray inside =>
    cases h
    exact Nat.le_refl _
  | array more paddings items ih =>
    obtain ⟨found, rfl, hfrom, -⟩ := exists_of_value?_array h
    refine Json.depth_array_le_succ.2 fun item hmem => ?_
    obtain ⟨i, hi⟩ := hfrom item hmem
    exact (ih i hi).trans (Finset.le_sup (f := fun i => (items i).depth) (Finset.mem_univ i))
  | emptyObject inside =>
    cases h
    exact Nat.le_refl _
  | object more keyPaddings paddings keys values ih =>
    obtain ⟨found, rfl, hfrom, -⟩ := exists_of_value?_object h
    refine Json.depth_object_le_succ.2 fun entry hmem => ?_
    obtain ⟨i, -, hi⟩ := hfrom entry hmem
    exact (ih i hi).trans (Finset.le_sup (f := fun i => (values i).depth) (Finset.mem_univ i))

/-- **A value nests as deep as its text** if the keys differ in every object of the text. -/
theorem depth_eq (hdiffer : s.KeysDiffer) (h : s.value? = some v) : v.depth = s.depth := by
  refine le_antisymm (depth_le h) ?_
  -- if no key is replaced by a later one, every item of the spelling is found in the value
  induction s generalizing v with
  | array more paddings items ih =>
    obtain ⟨found, rfl, -, hall⟩ := exists_of_value?_array h
    refine Spelling.depth_array_le_succ.2 fun i => ?_
    obtain ⟨item, hmem, hi⟩ := hall i
    exact (ih i (hdiffer i) hi).trans (depthOfItems_le_iff.1 le_rfl item hmem)
  | object more keyPaddings paddings keys values ih =>
    obtain ⟨found, rfl, -, hall⟩ := exists_of_value?_object h
    refine Spelling.depth_object_le_succ.2 fun i => ?_
    obtain ⟨entry, hmem, -, hi⟩ := hall hdiffer.1 i
    exact (ih i (hdiffer.2 i) hi).trans (depthOfEntries_le_iff.1 le_rfl entry hmem)
  | emptyArray inside =>
    cases h
    exact Nat.le_refl _
  | emptyObject inside =>
    cases h
    exact Nat.le_refl _
  | _ => exact Nat.zero_le _

end Spelling

end Parcel.Json
