import Parcel.Proofs.Boundary.History
import Parcel.Proofs.Json.Doubles
import Parcel.Proofs.Metadata.Addressable
import Parcel.Proofs.Metadata.TextRoundTrip

/-!
# Doubles through JSON text

A payload whose metadata goes through JSON text keeps its entries, and all of them but the doubles
as they were. A double comes back as a double next to it, with its sign. Most doubles are written
with so few digits that they come back as they were, but not all are: the digits are scaled in
rounded steps.

From outside, the text of what is stored under a live handle is always accepted for it, and is
stored as the encoding of the mapping with these doubles.

## Main definitions

* `Json.FewHere`: doubles that survive because their digits are few

## Main results

* `Payload.doubles_in_text_stay_near`: what becomes of doubles
* `Payload.text_changes_a_double`: a double that does not survive
-/

namespace Parcel

namespace Json

variable {f : Double → Double} {v : Json}

/-! ## Reread doubles -/

/-- What is made of doubles leaves lengths alone. -/
theorem addressable_mapDoubles (hv : Addressable v) : Addressable (v.mapDoubles f) := by
  -- doubles have no length, and all else stays as it is
  induction v using inductionOn with
  | array items ih =>
    obtain ⟨hlength, hinside⟩ := addressable_array.1 hv
    rw [mapDoubles, mapDoublesOfItems_eq_map]
    refine addressable_array.2 ⟨by rwa [List.length_map], ?_⟩
    rw [List.forall_mem_map]
    exact fun item hmem => ih item hmem (hinside item hmem)
  | object entries ih =>
    obtain ⟨⟨hlength, hkeys⟩, hinside⟩ := addressable_object.1 hv
    rw [mapDoubles]
    refine addressable_object.2 ⟨⟨?_, by rwa [keys_mapDoublesOfEntries]⟩, ?_⟩
    · rwa [mapDoublesOfEntries_eq_map, List.length_map]
    · rw [mapDoublesOfEntries_eq_map, List.forall_mem_map]
      exact fun entry hmem => ih entry hmem (hinside entry hmem)
  | double x => exact addressable_double _
  | _ => exact hv

/-- A double that survives because it is zero or its digits are few. -/
def FewHere : Json → Prop
  | .double x => x.isZero = true ∨ (x.abs.shortest .toEven).Few
  | _ => True

/-- Values whose doubles have few digits stay as they are. -/
theorem mapDoubles_reread_of_few (hproper : Proper v) (hv : Every FewHere v) :
    v.mapDoubles Double.reread = v := by
  refine mapDoubles_eq_self ((hproper.and hv).imp fun v hhere => ?_)
  cases v with
  | double x =>
    have hsurvives := Double.survives_reread hhere.1
    exact hhere.2.elim hsurvives.eq_of_isZero hsurvives.eq_of_few
  | _ => trivial

end Json

open Json

namespace Payload

variable {p : Payload}

/-- **The text of the metadata** of a lawful payload is accepted for it, with reread doubles. -/
theorem setText_toText (hp : p.Lawful) : p.setText p.metadata.toText =
    .ok { p with metadata := p.metadata.mapDoubles Double.reread } := by
  rw [setText, Entries.ofText_toText hp.proper (reread_of_proper hp.proper) hp.check]

/-- **Doubles stay near in JSON text.** The text of the metadata of every lawful payload is accepted
for it, and only the doubles of the metadata change: keys, texts, integers and the order of entries
stay, at every level. Every finite double comes back finite, with its sign, and as the third next
double at most; as the second next at most if the place of its last written digit is not below 10 to
the power of -308; and as it was if it is a zero, or is written with 15 digits at most of which the
last has a place between 10 to the power of -22 and 10 to the power of 22, integers of 16 digits
apart. So metadata with such doubles only comes back as it was.

From outside, the text that is delivered for a live handle of a store that is not poisoned is
accepted for the handle, whatever stands behind its terminator, and what is stored then is the
encoding of the mapping with these doubles, in all else the object is as before. Lengths fit 64
bits, as in memory. -/
theorem doubles_in_text_stay_near (hp : p.Lawful) :
    p.setText p.metadata.toText =
        .ok { p with metadata := p.metadata.mapDoubles Double.reread } ∧
      (∀ x : Double, x.isFinite = true → x.Survives x.reread) ∧
      (Every FewHere (.object p.metadata) → p.setText p.metadata.toText = .ok p) ∧
      ∀ shared h stored, shared.Reached → shared.poisoned = false →
        shared.store.object h = .ok stored → stored.metadata.length < UInt64.size →
        ∃ m, Entries.decode stored.metadata = .ok m ∧
          (∀ target, (Call.getText h target).run shared =
            (.delivery (target.deliverText m.toText), shared)) ∧
          (∀ behind,
            (Call.setText h (some (Utf8.bytes m.toText ++ terminator :: behind))).run shared =
            (.plain .ok, .ofStore (shared.store.withObject h
              { stored with metadata := Entries.encode (m.mapDoubles Double.reread) }))) ∧
          Entries.decode (Entries.encode (m.mapDoubles Double.reread)) =
            .ok (m.mapDoubles Double.reread).canonical := by
  refine ⟨setText_toText hp, fun x hx => Double.survives_reread hx, fun hfew => ?_, ?_⟩
  · have hsame : p.metadata.mapDoubles Double.reread = p.metadata :=
      Json.object.inj
        (Entries.mapDoubles_object.symm.trans (mapDoubles_reread_of_few hp.proper hfew))
    rw [setText_toText hp, hsame]
  · -- what is stored was accepted once, so it decodes to a lawful mapping
    intro shared h stored hreached hlive hstored hlength
    obtain ⟨allotted, hsound⟩ := hreached.sound
    have hreadable := hsound.readable h stored (Store.object_eq_ok_iff.1 hstored)
    obtain ⟨m, hdecode⟩ := hreadable.decodes
    have hproper := Entries.proper_of_decode hdecode
    have haddressable : Addressable (.object (m.mapDoubles Double.reread)) :=
      addressable_mapDoubles (Entries.addressable_of_decode hdecode hlength)
    have hread := Entries.ofText_toText hproper (reread_of_proper hproper)
      (Entries.check_of_decode hdecode)
    -- and so is what is read from its text
    obtain ⟨hproper', hcheck'⟩ := Entries.of_ofText hread
    refine ⟨m, hdecode, fun target => ?_, fun behind => ?_,
      Entries.decode_encode hproper' haddressable hcheck'⟩
    · have hrun := Call.run_getText hstored target
      rw [hdecode, ← Shared.eq_ofStore hlive] at hrun
      exact hrun
    · exact Call.run_setText_toText hproper (reread_of_proper hproper) hread haddressable hlive
        hstored behind

/-- The greatest odd integer of 53 binary digits, written with one digit too many, a tenth and minus
zero: the first becomes the even integer before it, and the others stay. -/
theorem doubles_in_text_stay_near_some :
    let odd : Double := ⟨0x433fffffffffffff⟩
    let even : Double := ⟨0x433ffffffffffffe⟩
    let others : Entries :=
      [("part", .double ⟨0x3fb999999999999a⟩), ("none", .double ⟨0x8000000000000000⟩)]
    let p : Payload := ⟨[], ("z", .double odd) :: others⟩
    let blob : Bytes := [0xa1, 0x61, 0x7a, 0xfb, 0x43, 0x3f, 0xff, 0xff, 0xff, 0xff, 0xff, 0xff]
    let shared := ((Call.setEncoded 1 (.bytes blob)).run
      ((Call.newData true).run (.ofStore .empty)).2).2
    p.Lawful ∧ p.setText p.metadata.toText = .ok ⟨[], ("z", .double even) :: others⟩ ∧
      odd.Survives even ∧ shared.Reached ∧ shared.poisoned = false ∧
      shared.store.object 1 = .ok ⟨blob, [], none⟩ ∧
      (Call.setText 1 (some (Utf8.bytes (Entries.toText [("z", .double odd)]) ++ [terminator]))).run
          shared =
        (.plain .ok, .ofStore (shared.store.withObject 1
          ⟨Entries.encode [("z", .double even)], [], none⟩)) := by
  intro odd even others p blob shared
  have hp : p.Lawful := by decide
  obtain ⟨hset, hsurvives, -, houtside⟩ := doubles_in_text_stay_near hp
  have hodd : odd.reread = even := by decide +kernel
  have hothers : Entries.mapDoubles Double.reread others = others := by
    have hpart : Double.reread ⟨0x3fb999999999999a⟩ = ⟨0x3fb999999999999a⟩ := by decide +kernel
    have hnone : Double.reread ⟨0x8000000000000000⟩ = ⟨0x8000000000000000⟩ := by decide +kernel
    simp [Entries.mapDoubles, mapDoublesOfEntries, mapDoubles, others, hpart, hnone]
  have hchanged : p.metadata.mapDoubles Double.reread = ("z", .double even) :: others := by
    rw [← hodd, ← hothers]
    rfl
  rw [hchanged] at hset
  have hreached : shared.Reached :=
    .call (.call Shared.reached_empty (.newData true)) (.setEncoded 1 (.bytes blob))
  have hlive : shared.poisoned = false := by decide +kernel
  have hstored : shared.store.object 1 = .ok ⟨blob, [], none⟩ := by decide +kernel
  obtain ⟨m, hdecode, -, hback, -⟩ := houtside shared 1 _ hreached hlive hstored (by decide)
  have hblob : Entries.decode blob = .ok [("z", .double odd)] := by rfl
  cases hblob.symm.trans hdecode
  have hmapped : Entries.mapDoubles Double.reread [("z", .double odd)] = [("z", .double even)] := by
    rw [← hodd]
    rfl
  have hrun := hback []
  rw [hmapped] at hrun
  exact ⟨hp, hset, hodd ▸ hsurvives odd (by decide), hreached, hlive, hstored, hrun⟩

/-- **A double that does not survive**: the greatest odd integer of 53 binary digits becomes the
even one before it, and the payload is not equal to what it was. -/
theorem text_changes_a_double :
    let p : Payload := ⟨[], [("z", .double ⟨0x433fffffffffffff⟩)]⟩
    let changed : Payload := ⟨[], [("z", .double ⟨0x433ffffffffffffe⟩)]⟩
    p.Lawful ∧ p.metadata.toText = "\x7b\"z\":9007199254740991.0\x7d" ∧
      p.setText p.metadata.toText = .ok changed ∧ changed.same p = false := by
  intro p changed
  have hp : p.Lawful := by decide
  have hreread : Double.reread ⟨0x433fffffffffffff⟩ = ⟨0x433ffffffffffffe⟩ := by decide +kernel
  refine ⟨hp, by decide +kernel, ?_, by decide +kernel⟩
  rw [setText_toText hp]
  show Except.ok (⟨[], [("z", .double (Double.reread ⟨0x433fffffffffffff⟩))]⟩ : Payload) = _
  rw [hreread]

end Payload

end Parcel
