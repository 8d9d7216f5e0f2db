import Parcel.Proofs.Cbor.Decoding
import Parcel.Proofs.Cbor.Nesting
import Parcel.Proofs.Metadata.Acceptance
import Parcel.Proofs.Metadata.FirstOffence

/-!
# Two limits on nesting

The reader gives up a level for each array, map or tag it goes into, and the conversion gives up a
level for each array or map, tags being refused at once. Both start with the same number, so
whatever the reader lets pass leaves the conversion a level for every container: that a container
lies too deep is found by the reader, or not at all.

## Main definitions

* `Inspection.Exhausted`: a container at a place where no level is left for it

## Main results

* `Cbor.Item.not_exhausted_of_nesting_le`: no place in the walk of an item is left without levels
* `Cbor.Encoding.Means.depth_eq`: for what JSON has, the reader takes the levels of the containers
  only
* `Entries.nesting_is_malformed`: both limits in the decoder
-/

namespace Parcel

open Cbor (Item Encoding)

/-! ## The levels of the conversion -/

/-- **A container for which no level is left.** -/
def Inspection.Exhausted : Inspection → Prop
  | .part _ 0 (.array _) => True
  | .part _ 0 (.map _) => True
  | _ => False

/-- Nesting too deep is reported of containers without levels only. -/
theorem Inspection.exhausted_of_offence? {e : Inspection} {r : Rejection} (h : e.offence? = some r)
    (hreason : r.reason = .tooDeep) : e.Exhausted := by
  unfold offence? at h
  split at h
  all_goals first
    | trivial
    | contradiction
    | (split at h <;> cases h <;> contradiction)
    | (cases h; contradiction)

namespace Cbor.Item

variable {levels : Nat} {path : Path} {root item : Item}

theorem nesting_lt_of_mem_array {items : List Item} (h : item ∈ items) :
    item.nesting < nesting (.array items) :=
  Nat.lt_succ_of_le (nesting_array_le_succ.1 (Nat.le_refl _) item h)

theorem nesting_lt_of_mem_map {entries : List (Item × Item)} {key : Item}
    (h : (key, item) ∈ entries) : item.nesting < nesting (.map entries) :=
  Nat.lt_succ_of_le (nesting_map_le_succ.1 (Nat.le_refl _) (key, item) h).2

/-- Each step of a path leads into a container. -/
theorem Leads.nesting_le (h : root.Leads path item) :
    path.length + item.nesting ≤ root.nesting := by
  induction h with
  | root => exact Nat.le_of_eq (Nat.zero_add _)
  | index around hitem ih =>
    have hlt := nesting_lt_of_mem_array (List.mem_of_getElem? hitem)
    rw [List.length_append, List.length_singleton]
    omega
  | key around hentry ih =>
    have hlt := nesting_lt_of_mem_map hentry
    rw [List.length_append, List.length_singleton]
    omega

/-- **No container is left without levels** if there are as many as containers lie inside each
other. -/
theorem not_exhausted_of_nesting_le (h : root.nesting ≤ levels) :
    ∀ e ∈ inspections levels [] root, ¬e.Exhausted := by
  intro e he hexhausted
  have hplace := standsIn_of_mem_inspections .root rfl he
  unfold Inspection.Exhausted at hexhausted
  -- a container that has no level left would be nested too deep
  split at hexhausted
  · obtain ⟨hleads, hleft⟩ := hplace
    have hle := hleads.nesting_le
    rw [nesting] at hle
    omega
  · obtain ⟨hleads, hleft⟩ := hplace
    have hle := hleads.nesting_le
    rw [nesting] at hle
    omega
  · exact hexhausted

/-- **The conversion has no depth to report** if there are as many levels as containers lie inside
each other. -/
theorem reason_ne_tooDeep (h : root.nesting ≤ levels) {r : Rejection}
    (hrejected : toJson levels root = .error r) : r.reason ≠ .tooDeep := by
  intro hreason
  have hfirst : (inspections levels [] root).findSome? Inspection.offence? = some r := by
    rw [findSome?_inspections, hrejected]
    rfl
  obtain ⟨e, he, hoffence⟩ := List.exists_of_findSome?_eq_some hfirst
  exact not_exhausted_of_nesting_le h e he (Inspection.exhausted_of_offence? hoffence hreason)

end Cbor.Item

/-! ## Levels of encodings and of items -/

namespace Cbor.Item

variable {n : Nat} {item : Item}

theorem depth_array_le_succ {items : List Item} :
    depth (.array items) ≤ n + 1 ↔ ∀ item ∈ items, item.depth ≤ n := by
  rw [depth, Nat.succ_le_succ_iff]
  induction items with
  | nil => simp [depthOfItems]
  | cons item rest ih => rw [depthOfItems, Nat.max_le, ih, List.forall_mem_cons]

theorem depth_map_le_succ {entries : List (Item × Item)} : depth (.map entries) ≤ n + 1 ↔
    ∀ entry ∈ entries, entry.1.depth ≤ n ∧ entry.2.depth ≤ n := by
  rw [depth, Nat.succ_le_succ_iff]
  induction entries with
  | nil => simp [depthOfEntries]
  | cons entry rest ih =>
    rw [depthOfEntries, Nat.max_le, Nat.max_le, ih, List.forall_mem_cons]

/-- Big integers of JSON are no tags. -/
theorem Modelled.depth_ofInt {n : Int} (h : Modelled (ofInt n)) : (ofInt n).depth = 0 := by
  unfold ofInt at h ⊢
  split at h
  · next hrange =>
    rw [if_pos hrange]
    rfl
  · split at h <;> cases h

theorem Modelled.of_mem_array {items : List Item} (h : Modelled (.array items)) :
    ∀ item ∈ items, Modelled item := by
  cases h with
  | array inside => exact inside

theorem Modelled.of_mem_map {entries : List (Item × Item)} (h : Modelled (.map entries)) :
    ∀ entry ∈ entries, Modelled entry.1 ∧ Modelled entry.2 := by
  cases h with
  | map named hnodup inside =>
    exact List.forall_mem_map.2 fun entry hmem => ⟨.text entry.1, inside entry hmem⟩

end Cbor.Item

open Cbor.Item in
/-- **The reader takes one level for each container** of what JSON has, and no other. -/
theorem Cbor.Encoding.Means.depth_eq {e : Encoding} {item : Item} (h : e.Means item)
    (hitem : Modelled item) : item.depth = e.depth := by
  induction h with
  | bytes segment => cases hitem
  | openBytes segments => cases hitem
  | tag hother inside ih => cases hitem
  | positive hnumber hsize =>
    rw [hitem.depth_ofInt,
      Encoding.depth_bigInteger (Encoding.isBigInteger_iff.2 ⟨_, rfl, .inl hnumber, hsize⟩)]
  | negated hnumber hsize hbound =>
    rw [hitem.depth_ofInt,
      Encoding.depth_bigInteger (Encoding.isBigInteger_iff.2 ⟨_, rfl, .inr hnumber, hsize⟩)]
  | @array length items found inside ih =>
    have hmodelled : ∀ i, Modelled (found i) := fun i =>
      hitem.of_mem_array _ (List.mem_map_of_mem (List.mem_finRange i))
    -- both are below a number that is no zero if they are inside, by one less
    refine eq_of_forall_ge_iff fun n => ?_
    cases n with
    | zero => exact iff_of_false (Nat.not_succ_le_zero _) Encoding.not_depth_array_le_zero
    | succ n =>
      rw [Item.depth_array_le_succ, Encoding.depth_array_le_succ, List.forall_mem_map]
      simp [fun i => ih i (hmodelled i)]
  | @map length keys values foundKeys found insideKeys inside ihKeys ih =>
    have hmodelled : ∀ i, Modelled (foundKeys i) ∧ Modelled (found i) := fun i =>
      hitem.of_mem_map (foundKeys i, found i)
        (List.mem_map.2 ⟨i, List.mem_finRange i, rfl⟩)
    refine eq_of_forall_ge_iff fun n => ?_
    cases n with
    | zero => exact iff_of_false (Nat.not_succ_le_zero _) Encoding.not_depth_map_le_zero
    | succ n =>
      rw [Item.depth_map_le_succ, Encoding.depth_map_le_succ, List.forall_mem_map]
      simp [fun i => ihKeys i (hmodelled i).1, fun i => ih i (hmodelled i).2]
  | _ => rfl

/-! ## Messages -/

namespace Rejection

theorem exists_message_eq_append (r : Rejection) :
    ∃ behind, r.message.toList = r.reason.text.toList ++ behind := by
  simp [message, located, String.toList_append, List.append_assoc]

/-- The first two letters of a message tell the nesting from all other reasons. -/
theorem reason_of_message {r : Rejection} (h : Reason.tooDeep.text.toList <+: r.message.toList) :
    r.reason = .tooDeep := by
  obtain ⟨behind, hbehind⟩ := r.exists_message_eq_append
  obtain ⟨after, hafter⟩ := h
  rw [hbehind] at hafter
  have hlong : ∀ reason : Reason, 2 ≤ reason.text.toList.length := by
    intro reason
    cases reason <;> decide
  have htwo := congrArg (List.take 2) hafter
  rw [List.take_append_of_le_length (hlong _), List.take_append_of_le_length (hlong _)] at htwo
  revert htwo
  cases r.reason <;> decide

end Rejection

/-! ## The decoder -/

namespace Entries

variable {bytes : Bytes}

/-- A map is converted to a mapping, or rejected. -/
theorem ofItem_map (entries : List (Item × Item)) :
    (∃ m, Item.toJson maxDepth (.map entries) = .ok (.object m) ∧ ofItem (.map entries) = .ok m) ∨
      ∃ r, Item.toJson maxDepth (.map entries) = .error r ∧
        ofItem (.map entries) = .error r.unsupported := by
  cases hjson : Item.toJson maxDepth (.map entries) with
  | error r => exact .inr ⟨r, rfl, by simp only [ofItem, hjson]⟩
  | ok v =>
    obtain ⟨-, m, -, -, rfl⟩ := Item.toJson_map_eq_ok hjson
    exact .inl ⟨m, rfl, by simp only [ofItem, hjson]⟩

/-- A map of what JSON has that keeps the limit is converted, and is the item of its mapping. -/
theorem exists_ofItem_map {entries : List (Item × Item)} (hmodelled : Item.Modelled (.map entries))
    (hdepth : Item.depth (.map entries) ≤ maxDepth) :
    ∃ m, ofItem (.map entries) = .ok m ∧ (Json.object m).toItem = .map entries := by
  obtain ⟨v, hv⟩ := Item.exists_toJson_iff.2 ⟨hmodelled, hdepth⟩
  rcases ofItem_map entries with ⟨m, hjson, hitem⟩ | ⟨r, hjson, -⟩
  · exact ⟨m, hitem, Item.toItem_of_toJson hjson⟩
  · rw [hv] at hjson
    contradiction

/-- What is reported as unsupported was read, and then rejected. -/
theorem exists_of_unsupported {message : String}
    (h : decode bytes = .error (.unsupportedValue message)) :
    ∃ item r, Item.read maxDepth bytes = .ok (item, []) ∧ item.toJson maxDepth = .error r ∧
      message = r.message := by
  rw [decode] at h
  split at h
  · cases h
  · next item hread =>
    -- values are reported by the conversion alone, and only mappings are converted
    cases item with
    | map entries =>
      rcases ofItem_map entries with ⟨m, hjson, hitem⟩ | ⟨r, hjson, hitem⟩
      · rw [hitem] at h
        contradiction
      · rw [hitem] at h
        cases h
        exact ⟨_, r, hread, hjson, rfl⟩
    | _ => cases h
  · cases h

/-- **An encoding that stands for an item** is decoded as this item, if it keeps the limit. -/
theorem decode_of_means {e : Encoding} {item : Item} (h : e.Means item) :
    decode e.toBytes = if e.depth ≤ maxDepth then ofItem item
      else .error (.malformedEncoding "nesting deeper than 64 levels") := by
  have hread := Cbor.read_of_means h maxDepth []
  rw [List.append_nil] at hread
  rw [decode, hread]
  by_cases hdepth : e.depth ≤ maxDepth
  · rw [if_pos hdepth, if_pos hdepth]
  · rw [if_neg hdepth, if_neg hdepth]
    rfl

/-- **Nesting too deep makes an encoding malformed**, and is never reported otherwise. Whatever is
read from bytes at all has no container left without a level when it is converted, so no rejection
is for the nesting, and no message about an unsupported value is either. One whole map of what JSON
has, with different keys, is decoded as this map if at most 64 containers lie inside each other, and
malformed if there are more. -/
theorem nesting_is_malformed (bytes : Bytes) :
    (∀ item rest, Item.read maxDepth bytes = .ok (item, rest) →
      (∀ place ∈ item.inspections maxDepth [], ¬place.Exhausted) ∧
        ∀ r, item.toJson maxDepth = .error r → r.reason ≠ .tooDeep) ∧
      (∀ message, decode bytes = .error (.unsupportedValue message) →
        ¬Reason.tooDeep.text.toList <+: message.toList) ∧
      ∀ (e : Encoding) entries, e.toBytes = bytes → e.Means (.map entries) →
        Item.Modelled (.map entries) →
        (Item.depth (.map entries) ≤ 64 →
          ∃ m, decode bytes = .ok m ∧ (Json.object m).toItem = .map entries) ∧
        (64 < Item.depth (.map entries) →
          decode bytes = .error (.malformedEncoding "nesting deeper than 64 levels")) := by
  -- the parser gives no item that is nested deeper than its levels
  have hreason : ∀ item rest, Item.read maxDepth bytes = .ok (item, rest) →
      ∀ r, item.toJson maxDepth = .error r → r.reason ≠ .tooDeep :=
    fun item rest hread r hr => Item.reason_ne_tooDeep (Cbor.yields_read maxDepth bytes hread) hr
  refine ⟨fun item rest hread => ⟨?_, hreason item rest hread⟩, ?_, ?_⟩
  · exact Item.not_exhausted_of_nesting_le (Cbor.yields_read maxDepth bytes hread)
  · rintro message hmessage hfront
    obtain ⟨item, r, hread, hr, rfl⟩ := exists_of_unsupported hmessage
    exact hreason item [] hread r hr (Rejection.reason_of_message hfront)
  · rintro e entries rfl hmeans hmodelled
    rw [decode_of_means hmeans, ← hmeans.depth_eq hmodelled]
    refine ⟨fun hdepth => ?_, fun hdepth => if_neg (Nat.not_le.2 hdepth)⟩
    obtain ⟨m, hitem, hm⟩ := exists_ofItem_map hmodelled hdepth
    exact ⟨m, (if_pos hdepth).trans hitem, hm⟩

/-- Lists inside each other under a key, one too few and one too many for the limit, and bytes. -/
theorem nesting_is_malformed_at_the_limit :
    let one : Cbor.Argument := ⟨.immediate, 1, by decide⟩
    let lists (n : Nat) : Encoding :=
      (fun e => .array (.known one) fun _ => e)^[n] (.array (.unknown 0) Fin.elim0)
    let found (n : Nat) : Item := (fun item => .array [item])^[n] (.array [])
    let outer (n : Nat) : Encoding :=
      .map (.known one) (fun _ => .text ⟨one, "k", by decide⟩) fun _ => lists n
    (Item.depth (.map [(.text "k", found 62)]) ≤ 64 ∧
      ∃ m, decode (outer 62).toBytes = .ok m ∧
        (Json.object m).toItem = .map [(.text "k", found 62)]) ∧
      (64 < Item.depth (.map [(.text "k", found 63)]) ∧
        decode (outer 63).toBytes = .error (.malformedEncoding "nesting deeper than 64 levels")) ∧
      decode [0xa1, 0x61, 0x6b, 0x40] =
          .error (.unsupportedValue "byte string at $.k (Bytes([]))") ∧
        ¬Reason.tooDeep.text.toList <+: "byte string at $.k (Bytes([]))".toList := by
  intro one lists found outer
  have hlists : ∀ n, (lists n).Means (found n) ∧ (found n).Modelled ∧ (found n).depth = n + 1 := by
    intro n
    induction n with
    | zero =>
      exact ⟨@Encoding.Means.array (.unknown 0) _ Fin.elim0 fun i => Fin.elim0 i, .array (by simp),
        rfl⟩
    | succ n ih =>
      obtain ⟨hmeans, hmodelled, hdepth⟩ := ih
      simp only [lists, found, Function.iterate_succ', Function.comp] at *
      exact ⟨.array fun _ => hmeans, .array (by simpa using hmodelled),
        by simp [Item.depth, Item.depthOfItems, hdepth]⟩
  have houter : ∀ n, (outer n).Means (.map [(.text "k", found n)]) := fun n =>
    .map (fun _ => .text _) fun _ => (hlists n).1
  have hmodelled : ∀ n, Item.Modelled (.map [(.text "k", found n)]) := fun n =>
    .map [("k", found n)] (List.nodup_singleton _) (by simpa using (hlists n).2.1)
  have hdepth : ∀ n, Item.depth (.map [(.text "k", found n)]) = n + 2 := fun n => by
    simp [Item.depth, Item.depthOfEntries, (hlists n).2.2]
  have hbytes : decode [0xa1, 0x61, 0x6b, 0x40] =
      .error (.unsupportedValue "byte string at $.k (Bytes([]))") := by
    rfl
  have hfew : Item.depth (.map [(.text "k", found 62)]) ≤ 64 := Nat.le_of_eq (hdepth 62)
  have hmany : 64 < Item.depth (.map [(.text "k", found 63)]) := Nat.le_of_eq (hdepth 63).symm
  exact ⟨⟨hfew, ((nesting_is_malformed _).2.2 _ _ rfl (houter 62) (hmodelled 62)).1 hfew⟩,
    ⟨hmany, ((nesting_is_malformed _).2.2 _ _ rfl (houter 63) (hmodelled 63)).2 hmany⟩,
    hbytes, (nesting_is_malformed _).2.1 _ hbytes⟩

end Entries

end Parcel
