import Parcel.Proofs.Boundary.Calls
import Parcel.Proofs.Boundary.Interchange
import Parcel.Proofs.Json.Reread

/-!
# The round trip through JSON text

A mapping that keeps the nesting limit is read back from its text with its entries in their own
order, at every level: the parser allows more levels than the limit, so it never gets in the way,
and what it reads passes the check again. Keys, texts and integers are read back as they were; what
becomes of a double depends on how it is read.

From outside, the text is given as terminated bytes. It has no controls, so the first terminator is
the one behind it, and what is stored is the encoding of the mapping.

## Main results

* `Entries.ofText_toText`: a mapping is read back from its text
* `Call.run_setText_of_live`, `Call.run_setText_toText`: what a text is stored as
* `Entries.text_round_trip_without_doubles`: mappings without doubles
-/

namespace Parcel

open Json

variable {f : Double → Double} {m : Entries}

namespace Entries

/-- A mapping with other doubles. -/
def mapDoubles (f : Double → Double) (m : Entries) : Entries :=
  mapDoublesOfEntries f m

theorem mapDoubles_object : (Json.object m).mapDoubles f = .object (m.mapDoubles f) := rfl

/-- **A mapping is read back from its text**, with what is made of its doubles. -/
theorem ofText_toText (hproper : Proper (.object m)) (hreread : Reread f (.object m))
    (hcheck : check m = .ok ()) : ofText m.toText = .ok (m.mapDoubles f) := by
  have hdepth := check_eq_ok_iff.1 hcheck
  have hchecked : check (m.mapDoubles f) = .ok () := by
    rw [check_eq_ok_iff, ← mapDoubles_object]
    exact (depth_mapDoubles_le_iff _).2 hdepth
  -- the parser has levels to spare
  have hparse : parse? m.toText = some (.object (m.mapDoubles f)) :=
    parse?_toText hproper hreread (Nat.le_trans hdepth (by decide))
  rw [ofText, hparse]
  dsimp only
  rw [hchecked]

end Entries

/-! ## From outside -/

namespace Call

variable {shared : Shared} {h : Handle} {stored : StoredObject} {text : String}

theorem encodeText_of_ofText (hread : Entries.ofText text = .ok m) :
    encodeText text = .ok (Entries.encode m) := by
  rw [encodeText, hread]
  rfl

/-- **What a text is stored as** under a live handle: the encoding of the mapping that is read from
it, if lengths fit 64 bits. -/
theorem run_setText_of_live {input : Option Bytes} (hinput : readText? input = some text)
    (hread : Entries.ofText text = .ok m) (haddressable : Addressable (.object m))
    (hlive : shared.poisoned = false) (hstored : shared.store.object h = .ok stored) :
    (Call.setText h input).run shared =
      (.plain .ok,
        .ofStore (shared.store.withObject h { stored with metadata := Entries.encode m })) := by
  -- what was read from a text can be encoded and decoded
  obtain ⟨hproper, hcheck⟩ := Entries.of_ofText hread
  have hdecode := Entries.decode_encode hproper haddressable hcheck
  have hrun := run_setText hstored hinput (encodeText_of_ofText hread)
  rw [StoredObject.replaceMetadata_of_decode hdecode, ← Shared.eq_ofStore hlive] at hrun
  exact hrun

/-- **What the text of a mapping is stored as.** -/
theorem run_setText_toText {read : Entries} (hproper : Proper (.object m))
    (hreread : Reread f (.object m)) (hread : Entries.ofText m.toText = .ok read)
    (haddressable : Addressable (.object read)) (hlive : shared.poisoned = false)
    (hstored : shared.store.object h = .ok stored) (behind : Bytes) :
    (Call.setText h (some (Utf8.bytes m.toText ++ terminator :: behind))).run shared =
      (.plain .ok,
        .ofStore (shared.store.withObject h { stored with metadata := Entries.encode read })) := by
  have hvisible : ∀ c ∈ m.toText.toList, 0 < c.toNat := by
    rw [Entries.toText, toText, String.toList_ofList]
    exact fun c hc => Nat.lt_of_lt_of_le (by decide) (space_le_of_mem_render hproper hreread c hc)
  exact run_setText_of_live (readText?_bytes hvisible behind) hread haddressable hlive hstored

end Call

namespace Entries

/-- **Mappings without doubles survive JSON text.** A mapping that passes the check, with unique
keys and integers of 64 bits, with or without a sign, and without doubles, is read back from its
text as it was: the same entries in the same order at every level, with the same keys and texts,
whatever characters these have. From outside, the text is stored as the encoding of the mapping,
under every live handle of a store that is not poisoned, whatever stands behind the terminator of
the text. Lengths fit 64 bits, as in memory. -/
theorem text_round_trip_without_doubles (hproper : Proper (.object m))
    (hdoubles : WithoutDoubles (.object m)) (hcheck : check m = .ok ()) :
    ofText m.toText = .ok m ∧
      (Addressable (.object m) → ∀ shared h stored, shared.poisoned = false →
        shared.store.object h = .ok stored → ∀ behind,
          (Call.setText h (some (Utf8.bytes m.toText ++ terminator :: behind))).run shared =
            (.plain .ok,
              .ofStore (shared.store.withObject h { stored with metadata := encode m }))) := by
  have hreread : Reread id (.object m) := reread_of_withoutDoubles hdoubles
  have hsame : m.mapDoubles id = m :=
    Json.object.inj (mapDoubles_object.symm.trans (mapDoubles_of_withoutDoubles hdoubles))
  have hread : ofText m.toText = .ok m := by
    rw [ofText_toText hproper hreread hcheck, hsame]
  refine ⟨hread, fun haddressable shared h stored hlive hstored behind => ?_⟩
  exact Call.run_setText_toText hproper hreread hread haddressable hlive hstored behind

/-- Both ends of the integers, an empty key, and a text with a quote, a backslash, controls and a
character of four bytes. -/
theorem text_round_trip_without_doubles_extremes :
    let inner : Entries :=
      [("z", .text "\"\\\n\u0000\u007f😀"), ("", .integer (-9223372036854775808))]
    let m : Entries :=
      [("list", .array [.object inner, .null]), ("n", .integer 18446744073709551615)]
    let shared := ((Call.newData true).run (.ofStore .empty)).2
    Proper (.object m) ∧ WithoutDoubles (.object m) ∧ check m = .ok () ∧ Addressable (.object m) ∧
      ofText m.toText = .ok m ∧
      (Call.setText 1 (some (Utf8.bytes m.toText ++ [terminator]))).run shared =
        (.plain .ok, .ofStore (shared.store.withObject 1 ⟨encode m, [], none⟩)) := by
  intro inner m shared
  have hproper : Proper (.object m) := by decide
  have hdoubles : WithoutDoubles (.object m) := by decide
  have hcheck : check m = .ok () := by decide
  have haddressable : Addressable (.object m) := by decide
  have hstored : shared.store.object 1 = .ok (.empty none) := by
    decide +kernel
  obtain ⟨hread, hset⟩ := text_round_trip_without_doubles hproper hdoubles hcheck
  exact ⟨hproper, hdoubles, hcheck, haddressable, hread,
    hset haddressable shared 1 (.empty none) rfl hstored []⟩

end Entries

end Parcel
