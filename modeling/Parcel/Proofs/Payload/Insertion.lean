import Parcel.Proofs.Json.Canonical
import Parcel.Proofs.Payload.Construction

/-!
# One nesting limit for all ways of insertion

A mapping can get into a payload as a whole, entry by entry, as typed values, or as its bytes. The
nesting is limited in a different way each time: by a walk over finished values, by a conversion
that starts one level down for a single entry, and by the reader of bytes. All of these draw the
line at the same depth, so it makes no difference how a mapping is inserted.

## Main definitions

* `Rejected`: results that say that a value may not be metadata
* `Payload.editAll`: edits one after the other, the first that fails ends it
* `Payload.Insertion`: the ways to insert a mapping that is not encoded

## Main results

* `Offer.toMetadata_json_eq_ok_iff`: a JSON value that is offered is stored as it is, if the check
  lets it pass
* `Payload.ofOffers_eq_editAll`: a payload of typed values is built by setting them one by one
* `Payload.Insertion.eq_ok`, `Payload.Insertion.rejected`: what every way of insertion gives
* `Payload.one_limit_for_every_insertion`: all ways of insertion agree
-/

namespace Parcel

open Json

/-- The result says that some value may not be metadata. -/
def Rejected {α : Type} (result : Except Error α) : Prop :=
  ∃ value reason, result = .error (.invalidMetadata value reason)

/-! ## Checks that fail -/

namespace Json

variable {v : Json}

theorem rejected_checkEntry (path : Path) (h : v.checkEntry path ≠ .ok ()) :
    Rejected (v.checkEntry path) := by
  rw [checkEntry] at h ⊢
  split
  · exact ⟨_, _, rfl⟩
  · next hwithin => simp [hwithin] at h

end Json

namespace Entries

variable {m : Entries} {key : String} {value : Json}

/-- A mapping passes the check if each of its values does. -/
theorem check_cons :
    check ((key, value) :: m) = .ok () ↔ value.check = .ok () ∧ check m = .ok () := by
  rw [check_eq_ok_iff, check_eq_ok_iff, Json.check_eq_ok_iff, maxDepth, depth_object_le_succ,
    depth_object_le_succ, List.forall_mem_cons]

theorem rejected_check (h : check m ≠ .ok ()) : Rejected (check m) := by
  induction m with
  | nil => exact absurd rfl h
  | cons entry rest ih =>
    obtain ⟨key, value⟩ := entry
    rw [check] at h ⊢
    cases hvalue : value.checkEntry [.key key] with
    | error error =>
      have hrejected := rejected_checkEntry (v := value) [.key key] (by simp [hvalue])
      rwa [hvalue] at hrejected
    | ok =>
      rw [hvalue] at h
      exact ih h

end Entries

/-! ## Arrays inside each other -/

namespace Json

/-- As many arrays inside each other as given. -/
def nest : Nat → Json
  | 0 => .null
  | n + 1 => .array [nest n]

theorem proper_nest (n : Nat) : Proper (nest n) := by
  induction n with
  | zero => exact proper_null
  | succ n ih => simpa [nest, proper_array] using ih

theorem addressable_nest (n : Nat) : Addressable (nest n) := by
  induction n with
  | zero => exact (every_of_not_isContainer rfl).2 trivial
  | succ n ih => simpa [nest, addressable_array, Cbor.Item.argumentBound, UInt64.size] using ih

theorem depth_nest (n : Nat) : (nest n).depth = n := by
  induction n with
  | zero => rfl
  | succ n ih => simp [nest, depth, depthOfItems, ih]

theorem check_nest (n : Nat) : (nest n).check = .ok () ↔ n ≤ 63 := by
  rw [check_eq_ok_iff, depth_nest, maxDepth]

end Json

/-! ## JSON values as typed values -/

namespace Offer

variable {offer : Offer} {typeName : String} {v w : Json}

/-- **A JSON value that is offered** is stored as it is, exactly if it passes the check. -/
theorem toMetadata_json_eq_ok_iff (hv : Proper v) :
    (Offer.mk typeName (.json v)).toMetadata = .ok w ↔ v.check = .ok () ∧ w = v := by
  -- the conversion of a single entry starts one level below the limit of a mapping
  rw [Json.check_eq_ok_iff, ← Cbor.Item.toJson_toItem_eq_ok_iff hv]
  simp only [toMetadata, Datum.toItem, Cbor.Item.toEntryValue]
  cases v.toItem.toJson (maxDepth - 1) <;> simp

/-- A typed value that is not stored may not be metadata. -/
theorem rejected_of_toMetadata {error : Error} (h : offer.toMetadata = .error error) :
    ∃ value reason, error = .invalidMetadata value reason := by
  rw [toMetadata] at h
  split at h
  · cases h
    exact ⟨_, _, rfl⟩
  · split at h
    · cases h
      exact ⟨_, _, rfl⟩
    · contradiction

end Offer

namespace Payload

variable {p : Payload} {m : Entries} {args : List Bytes} {typeName : String} {v : Json}
  {result : Except Error Payload}

/-! ## Entries one by one -/

/-- Edits one after the other; the first that fails ends it. -/
def editAll (p : Payload) : List Edit → Except Error Payload
  | [] => .ok p
  | change :: rest =>
    match p.edit change with
    | (.ok _, changed) => changed.editAll rest
    | (.error error, _) => .error error

/-- A JSON value set under a key as a typed value is stored if it passes the check. -/
theorem set_json (hv : Proper v) (key typeName : String) :
    (v.check = .ok () → p.set key ⟨typeName, .json v⟩ = .ok (p.store key v)) ∧
      (v.check ≠ .ok () → Rejected (p.set key ⟨typeName, .json v⟩)) := by
  rw [set]
  constructor
  · intro hcheck
    rw [(Offer.toMetadata_json_eq_ok_iff hv).2 ⟨hcheck, rfl⟩]
  · intro hcheck
    cases hoffer : (Offer.mk typeName (.json v)).toMetadata with
    | ok w => exact absurd ((Offer.toMetadata_json_eq_ok_iff hv).1 hoffer).1 hcheck
    | error error =>
      obtain ⟨value, reason, rfl⟩ := Offer.rejected_of_toMetadata hoffer
      exact ⟨value, reason, rfl⟩

/-- A finished value set under a key is stored if it passes the check. -/
theorem setValue_json (key : String) :
    (v.check = .ok () → p.setValue key v = .ok (p.store key v)) ∧
      (v.check ≠ .ok () → Rejected (p.setValue key v)) := by
  rw [setValue]
  constructor
  · intro hcheck
    rw [hcheck]
  · intro hcheck
    obtain ⟨value, reason, herror⟩ := rejected_checkEntry [] hcheck
    rw [Json.check, herror]
    exact ⟨value, reason, rfl⟩

/-- The edits insert the entries of a mapping one by one, each if it passes the check. -/
def Inserts (m : Entries) (change : String × Json → Edit) : Prop :=
  ∀ p : Payload, ∀ entry ∈ m,
    (entry.2.check = .ok () →
      ∃ reply, p.edit (change entry) = (.ok reply, (p.store entry.1 entry.2).2)) ∧
    (entry.2.check ≠ .ok () → Rejected (p.edit (change entry)).1)

theorem inserts_set (hm : Proper (.object m)) :
    Inserts m fun entry => .set entry.1 ⟨typeName, .json entry.2⟩ := by
  intro p entry hmem
  obtain ⟨hok, hrejected⟩ := set_json (p := p) ((proper_object.1 hm).2 entry hmem) entry.1 typeName
  constructor
  · intro hcheck
    exact ⟨_, by rw [edit, hok hcheck]; rfl⟩
  · intro hcheck
    obtain ⟨value, reason, herror⟩ := hrejected hcheck
    exact ⟨value, reason, by rw [edit, herror]; rfl⟩

theorem inserts_setValue (m : Entries) : Inserts m fun entry => .setValue entry.1 entry.2 := by
  intro p entry _
  obtain ⟨hok, hrejected⟩ := setValue_json (p := p) (v := entry.2) entry.1
  constructor
  · intro hcheck
    exact ⟨_, by rw [edit, hok hcheck]; rfl⟩
  · intro hcheck
    obtain ⟨value, reason, herror⟩ := hrejected hcheck
    exact ⟨value, reason, by rw [edit, herror]; rfl⟩

/-- **Entries inserted one by one** are all there in the end, or one that is too deep ends it. -/
theorem editAll_of_inserts {change : String × Json → Edit} (h : Inserts m change) :
    (Entries.check m = .ok () → p.editAll (m.map change) =
      .ok ⟨p.args, m.foldl (fun entries entry => Entries.insert entries entry.1 entry.2)
        p.metadata⟩) ∧
    (Entries.check m ≠ .ok () → Rejected (p.editAll (m.map change))) := by
  -- every entry changes the payload, and the next one is inserted into the changed one
  induction m generalizing p with
  | nil => exact ⟨fun _ => rfl, fun hcheck => absurd rfl hcheck⟩
  | cons entry rest ih =>
    obtain ⟨hok, hrejected⟩ := h p entry List.mem_cons_self
    have hrest := @ih (p.store entry.1 entry.2).2
      fun p other hmem => h p other (List.mem_cons_of_mem _ hmem)
    rw [List.map_cons, editAll, ne_eq, Entries.check_cons]
    by_cases hentry : entry.2.check = .ok ()
    · obtain ⟨reply, hreply⟩ := hok hentry
      rw [hreply]
      exact ⟨fun hcheck => hrest.1 hcheck.2,
        fun hcheck => hrest.2 fun hothers => hcheck ⟨hentry, hothers⟩⟩
    · obtain ⟨value, reason, herror⟩ := hrejected hentry
      refine ⟨fun hcheck => absurd hcheck.1 hentry, fun _ => ⟨value, reason, ?_⟩⟩
      split
      · next hreply => simp [hreply] at herror
      · next hreply => simpa [hreply] using herror

/-- Inserting typed values gives the metadata that setting them one by one gives. -/
theorem editAll_set (entries : List (String × Offer)) :
    editAll ⟨args, m⟩ (entries.map fun entry => .set entry.1 entry.2) =
      (insertOffers m entries).map fun metadata => ⟨args, metadata⟩ := by
  induction entries generalizing m with
  | nil => rfl
  | cons entry rest ih =>
    obtain ⟨key, offer⟩ := entry
    rw [List.map_cons, editAll, insertOffers]
    cases hoffer : offer.toMetadata with
    | error error => simp [edit, set, settled, hoffer, Except.map]
    | ok value =>
      rw [← ih]
      simp [edit, set, settled, hoffer, store]

/-- **A payload of typed values** is built by setting them one by one. -/
theorem ofOffers_eq_editAll (args : List Bytes) (entries : List (String × Offer)) :
    ofOffers args entries =
      (ofArgs args).editAll (entries.map fun entry => .set entry.1 entry.2) := by
  rw [ofArgs, editAll_set, ofOffers]
  cases insertOffers [] entries <;> rfl

/-! ## All ways of insertion -/

/-- **Ways to insert a mapping** that is not encoded, with the arguments of the payload that it gets
into, and with the result: as a whole into a new payload or an old one, and entry by entry, as typed
values or as finished ones. -/
inductive Insertion (m : Entries) : List Bytes → Except Error Payload → Prop
  | ofParts (args : List Bytes) : Insertion m args (ofParts args m)
  | ofMetadata : Insertion m [] (ofMetadata m)
  | setMetadata (p : Payload) : Insertion m p.args (p.setMetadata m)
  | ofOffers (args : List Bytes) (typeName : String) :
      Insertion m args (ofOffers args (m.map fun entry => (entry.1, ⟨typeName, .json entry.2⟩)))
  | set (typeName : String) :
      Insertion m [] (empty.editAll (m.map fun entry => .set entry.1 ⟨typeName, .json entry.2⟩))
  | setValue : Insertion m [] (empty.editAll (m.map fun entry => .setValue entry.1 entry.2))

theorem ofParts_of_check (hcheck : Entries.check m = .ok ()) :
    ofParts args m = .ok ⟨args, m⟩ := by
  rw [ofParts, hcheck]

theorem rejected_ofParts (hcheck : Entries.check m ≠ .ok ()) : Rejected (ofParts args m) := by
  obtain ⟨value, reason, herror⟩ := Entries.rejected_check hcheck
  exact ⟨value, reason, by rw [ofParts, herror]⟩

/-- Entries with unique keys that are inserted one by one are all the metadata there is. -/
theorem editAll_empty_of_inserts {change : String × Json → Edit} (hm : Proper (.object m))
    (h : Inserts m change) (hcheck : Entries.check m = .ok ()) :
    (ofArgs args).editAll (m.map change) = .ok ⟨args, m⟩ := by
  have hall : m.foldl (fun entries entry => Entries.insert entries entry.1 entry.2) [] = m :=
    Entries.ofPairs_of_nodup (proper_object.1 hm).1
  rw [(editAll_of_inserts h).1 hcheck]
  exact congrArg (fun metadata => Except.ok (Payload.mk args metadata)) hall

/-- **A mapping that passes the check** is inserted as it is. -/
theorem Insertion.eq_ok (hm : Proper (.object m)) (hcheck : Entries.check m = .ok ())
    (h : Insertion m args result) : result = .ok ⟨args, m⟩ := by
  cases h with
  | ofParts => exact ofParts_of_check hcheck
  | ofMetadata => exact ofParts_of_check hcheck
  | setMetadata p => exact ofParts_of_check hcheck
  | ofOffers =>
    rw [ofOffers_eq_editAll, List.map_map]
    exact editAll_empty_of_inserts hm (inserts_set hm) hcheck
  | set => exact editAll_empty_of_inserts hm (inserts_set hm) hcheck
  | setValue => exact editAll_empty_of_inserts hm (inserts_setValue m) hcheck

/-- **A mapping that does not pass the check** is rejected. -/
theorem Insertion.rejected (hm : Proper (.object m)) (hcheck : Entries.check m ≠ .ok ())
    (h : Insertion m args result) : Rejected result := by
  cases h with
  | ofParts => exact rejected_ofParts hcheck
  | ofMetadata => exact rejected_ofParts hcheck
  | setMetadata p => exact rejected_ofParts hcheck
  | ofOffers =>
    rw [ofOffers_eq_editAll, List.map_map]
    exact (editAll_of_inserts (inserts_set hm)).2 hcheck
  | set => exact (editAll_of_inserts (inserts_set hm)).2 hcheck
  | setValue => exact (editAll_of_inserts (inserts_setValue m)).2 hcheck

/-- The bytes of a mapping are read into a payload exactly if the mapping passes the check. -/
theorem setEncoded_encode (hm : Proper (.object m)) (haddressable : Addressable (.object m))
    (p : Payload) : p.setEncoded (Entries.encode m) =
      if Entries.check m = .ok () then .ok ⟨p.args, m.canonical⟩
      else .error (.malformedEncoding "nesting deeper than 64 levels") := by
  -- the reader counts the mapping itself as a level, as the check of mappings does
  rw [setEncoded, Entries.decode_encode_eq hm haddressable]
  by_cases hcheck : Entries.check m = .ok ()
  · rw [if_pos (Entries.check_eq_ok_iff.1 hcheck), if_pos hcheck]
  · rw [if_neg fun hdepth => hcheck (Entries.check_eq_ok_iff.2 hdepth), if_neg hcheck]

/-- **One nesting limit for all ways of insertion.** A JSON value that is offered as a typed value
is stored exactly if it passes the check of finished values, and then as it is; so it makes no
difference under any key of any payload which of the two it is set as. All ways to insert a mapping
succeed if it passes the check of mappings, with this mapping as the metadata, up to the order of
entries where its bytes were read; and all fail if it does not, the reader of bytes because they are
malformed and every other way because of the value. Keys are unique, integers have 64 bits, doubles
are finite, and lengths fit 64 bits. -/
theorem one_limit_for_every_insertion (hv : Proper v) (hm : Proper (.object m))
    (haddressable : Addressable (.object m)) :
    (∀ typeName w,
      (Offer.mk typeName (.json v)).toMetadata = .ok w ↔ v.check = .ok () ∧ w = v) ∧
    (∀ (p : Payload) key typeName,
      (v.check = .ok () → p.set key ⟨typeName, .json v⟩ = .ok (p.store key v) ∧
        p.setValue key v = .ok (p.store key v)) ∧
      (v.check ≠ .ok () → Rejected (p.set key ⟨typeName, .json v⟩) ∧
        Rejected (p.setValue key v))) ∧
    (Entries.check m = .ok () →
      (∀ args result, Insertion m args result → result = .ok ⟨args, m⟩) ∧
      ∀ p : Payload, ∃ read, p.setEncoded (Entries.encode m) = .ok ⟨p.args, read⟩ ∧
        Reordered (.object m) (.object read)) ∧
    (Entries.check m ≠ .ok () →
      (∀ args result, Insertion m args result → Rejected result) ∧
      ∀ p : Payload, ∃ detail, p.setEncoded (Entries.encode m) =
        .error (.malformedEncoding detail)) := by
  refine ⟨fun typeName w => Offer.toMetadata_json_eq_ok_iff hv, fun p key typeName => ?_,
    fun hcheck => ⟨fun args result => Insertion.eq_ok hm hcheck, fun p => ?_⟩,
    fun hcheck => ⟨fun args result => Insertion.rejected hm hcheck, fun p => ?_⟩⟩
  · have hset := set_json (p := p) hv key typeName
    have hvalue := setValue_json (p := p) (v := v) key
    exact ⟨fun hcheck => ⟨hset.1 hcheck, hvalue.1 hcheck⟩,
      fun hcheck => ⟨hset.2 hcheck, hvalue.2 hcheck⟩⟩
  · refine ⟨m.canonical, ?_, reordered_canonical (.object m)⟩
    rw [setEncoded_encode hm haddressable, if_pos hcheck]
  · refine ⟨"nesting deeper than 64 levels", ?_⟩
    rw [setEncoded_encode hm haddressable, if_neg hcheck]

/-- The deepest array that a mapping can hold, and one that is too deep. -/
theorem one_limit_for_every_insertion_nested :
    let m (n : Nat) : Entries := [("list", nest n)]
    (Proper (nest 63) ∧ Proper (.object (m 63)) ∧ Addressable (.object (m 63)) ∧
      Entries.check (m 63) = .ok () ∧
      (Offer.mk "list" (.json (nest 63))).toMetadata = .ok (nest 63) ∧
      (empty.editAll [.setValue "list" (nest 63)]) = .ok ⟨[], m 63⟩ ∧
      ∃ read, empty.setEncoded (Entries.encode (m 63)) = .ok ⟨[], read⟩ ∧
        Reordered (.object (m 63)) (.object read)) ∧
    Proper (nest 64) ∧ Proper (.object (m 64)) ∧ Addressable (.object (m 64)) ∧
      Entries.check (m 64) ≠ .ok () ∧
      (∀ w, (Offer.mk "list" (.json (nest 64))).toMetadata ≠ .ok w) ∧
      Rejected (empty.editAll [.setValue "list" (nest 64)]) ∧
      ∃ detail, empty.setEncoded (Entries.encode (m 64)) = .error (.malformedEncoding detail) := by
  intro m
  have hproper (n : Nat) : Proper (.object (m n)) := by
    simp [m, proper_object, Entries.keys, proper_nest]
  have haddressable (n : Nat) : Addressable (.object (m n)) := by
    simp [m, addressable_object, Entries.keys, addressable_nest]
    decide
  have hcheck (n : Nat) : Entries.check (m n) = .ok () ↔ n ≤ 63 :=
    Entries.check_cons.trans ((and_iff_left rfl).trans (check_nest n))
  obtain ⟨hoffer, -, hok, -⟩ :=
    one_limit_for_every_insertion (proper_nest 63) (hproper 63) (haddressable 63)
  obtain ⟨hoffer', -, -, hfail⟩ :=
    one_limit_for_every_insertion (proper_nest 64) (hproper 64) (haddressable 64)
  have hlast := hok ((hcheck 63).2 (by decide))
  have hnext := hfail fun h => absurd ((hcheck 64).1 h) (by decide)
  refine ⟨⟨proper_nest 63, hproper 63, haddressable 63, (hcheck 63).2 (by decide),
      (hoffer _ _).2 ⟨(check_nest 63).2 (by decide), rfl⟩, hlast.1 _ _ .setValue, hlast.2 empty⟩,
    proper_nest 64, hproper 64, haddressable 64, fun h => absurd ((hcheck 64).1 h) (by decide),
    fun w h => ?_, hnext.1 _ _ .setValue, hnext.2 empty⟩
  exact absurd ((check_nest 64).1 ((hoffer' _ _).1 h).1) (by decide)

end Payload

end Parcel
