import Parcel.Proofs.Metadata.Levels

/-!
# Malformed and unsupported

Bytes that are one well-formed map, with nothing behind it and within the nesting limit, can only
fail for what is in them. Two layers look at that. The reader refuses what stands for no item; all
of that is reported as malformed, though it is well formed. The conversion refuses the items that
JSON does not have, and keys that occur twice; that is reported as unsupported.

## Main results

* `Entries.decode_of_meaningless`: what stands for nothing is malformed
* `Entries.malformed_iff_meaningless`: which of the two a well-formed map is, or neither
* `Entries.simple_value_is_malformed`: a simple value without meaning is called malformed
-/

namespace Parcel.Entries

open Cbor (Item Encoding Length)

variable {e : Encoding}

/-- **An encoding that stands for nothing** is malformed, if it keeps the limit. -/
theorem decode_of_meaningless (h : e.Meaningless) (hdepth : e.depth ≤ maxDepth) :
    decode e.toBytes = .error (.malformedEncoding "Semantic") := by
  have hread := Cbor.read_of_meaningless h hdepth []
  rw [List.append_nil] at hread
  rw [decode, hread]
  rfl

/-- A map stands for a map, or for nothing. -/
theorem exists_means_map {length : Length} {keys values : Fin length.count → Encoding}
    (h : ¬(Encoding.map length keys values).Meaningless) :
    ∃ entries, (Encoding.map length keys values).Means (.map entries) := by
  obtain ⟨item, hitem⟩ := (Encoding.means_or_meaningless _).resolve_right h
  cases hitem with
  | map insideKeys inside => exact ⟨_, .map insideKeys inside⟩

/-- **What a well-formed map within the limit is decoded to**: malformed if it stands for nothing,
and otherwise a mapping if its item is in the JSON model, and unsupported if it is not. -/
theorem decode_map {length : Length} {keys values : Fin length.count → Encoding}
    (hdepth : (Encoding.map length keys values).depth ≤ maxDepth) :
    let e := Encoding.map length keys values
    (e.Meaningless ∧ decode e.toBytes = .error (.malformedEncoding "Semantic")) ∨
      ∃ entries, e.Means (.map entries) ∧
        ((Item.Modelled (.map entries) ∧ ∃ m, decode e.toBytes = .ok m) ∨
          ¬Item.Modelled (.map entries) ∧
            ∃ message, decode e.toBytes = .error (.unsupportedValue message)) := by
  intro e
  -- what stands for something is read, and only the conversion can refuse it then
  by_cases hnone : e.Meaningless
  · exact .inl ⟨hnone, decode_of_meaningless hnone hdepth⟩
  · obtain ⟨entries, hmeans⟩ := exists_means_map hnone
    refine .inr ⟨entries, hmeans, ?_⟩
    rw [decode_of_means hmeans, if_pos hdepth]
    by_cases hmodelled : Item.Modelled (.map entries)
    · obtain ⟨m, hm, -⟩ := exists_ofItem_map hmodelled (hmeans.depth_eq hmodelled ▸ hdepth)
      exact .inl ⟨hmodelled, m, hm⟩
    · rcases ofItem_map entries with ⟨m, hjson, -⟩ | ⟨r, -, hitem⟩
      · exact absurd (Item.exists_toJson_iff.1 ⟨_, hjson⟩).1 hmodelled
      · exact .inr ⟨hmodelled, _, hitem⟩

/-- **Malformed, unsupported or neither**, for bytes that are one well-formed map in which at most
64 arrays, maps and tags lie inside each other. They are malformed exactly if something in them
stands for nothing, and then for that reason. Whatever else they hold stands for one map. They are
decoded exactly if all of it is in the JSON model and no key occurs twice, and unsupported exactly
if not. -/
theorem malformed_iff_meaningless (length : Length) (keys values : Fin length.count → Encoding)
    (hdepth : (Encoding.map length keys values).depth ≤ 64) :
    let e := Encoding.map length keys values
    ((∃ detail, decode e.toBytes = .error (.malformedEncoding detail)) ↔ e.Meaningless) ∧
      (e.Meaningless → decode e.toBytes = .error (.malformedEncoding "Semantic")) ∧
      (¬e.Meaningless → ∃ entries, e.Means (.map entries) ∧
        ((∃ m, decode e.toBytes = .ok m) ↔ Item.Modelled (.map entries)) ∧
        ((∃ message, decode e.toBytes = .error (.unsupportedValue message)) ↔
          ¬Item.Modelled (.map entries))) := by
  intro e
  rcases decode_map hdepth with ⟨hnone, hdecode⟩ | ⟨entries, hmeans, hrest⟩
  · exact ⟨iff_of_true ⟨_, hdecode⟩ hnone, fun _ => hdecode, fun hsome => absurd hnone hsome⟩
  · have hsome : ¬e.Meaningless := hmeans.not_meaningless
    rcases hrest with ⟨hmodelled, m, hdecode⟩ | ⟨hmodelled, message, hdecode⟩ <;>
      refine ⟨iff_of_false ?_ hsome, fun hnone => absurd hnone hsome,
        fun _ => ⟨entries, hmeans, ?_, ?_⟩⟩ <;>
      simp [e, hdecode, hmodelled]

/-- A simple value that nothing stands behind, in a list under a key. -/
theorem malformed_iff_meaningless_simple :
    let one : Cbor.Argument := ⟨.immediate, 1, by decide⟩
    let value : Encoding := .simple ⟨.one, 255, by decide⟩ (Nat.le_refl 1)
    let e : Encoding := .map (.known one) (fun _ => .text ⟨one, "a", by decide⟩)
      fun _ => .array (.unknown 1) fun _ => value
    e.depth ≤ 64 ∧ e.toBytes = [0xa1, 0x61, 0x61, 0x9f, 0xf8, 0xff, 0xff] ∧ e.Meaningless ∧
      decode [0xa1, 0x61, 0x61, 0x9f, 0xf8, 0xff, 0xff] =
        .error (.malformedEncoding "Semantic") := by
  intro one value e
  have hdepth : e.depth ≤ 64 := Encoding.depth_map_le_succ.2 fun _ =>
    ⟨Nat.zero_le _, Encoding.depth_array_le_succ.2 fun _ => Nat.zero_le _⟩
  have hnone : e.Meaningless := .value ⟨0, by decide⟩ (.item ⟨0, by decide⟩ (.simple (by decide)))
  exact ⟨hdepth, rfl, hnone, (malformed_iff_meaningless _ _ _ hdepth).2.1 hnone⟩

/-- **A well-formed map is called malformed**: the simple value 0 under a key. -/
theorem simple_value_is_malformed :
    let one : Cbor.Argument := ⟨.immediate, 1, by decide⟩
    let e : Encoding := .map (.known one) (fun _ => .text ⟨one, "a", by decide⟩)
      fun _ => .simple ⟨.immediate, 0, by decide⟩ (Nat.zero_le 1)
    e.toBytes = [0xa1, 0x61, 0x61, 0xe0] ∧ e.depth ≤ 64 ∧
      decode [0xa1, 0x61, 0x61, 0xe0] = .error (.malformedEncoding "Semantic") := by
  exact ⟨rfl, Encoding.depth_map_le_succ.2 fun _ => ⟨Nat.zero_le _, Nat.zero_le _⟩, rfl⟩

end Parcel.Entries
