import Parcel.Exchange.Transfer
import Parcel.Proofs.Exchange.Session
import Parcel.Proofs.Json.Parser
import Parcel.Proofs.Metadata.RoundTrip

/-!
# Payloads as they can be built

Every constructor, every edit and every reading checks what it stores, so however a payload came
about, its metadata is a proper mapping that keeps the nesting limit.

## Main definitions

* `Payload.Lawful`: metadata with unique keys, finite doubles, integers in range and no excess depth
* `Edit.Proper`: edits with finished values that are JSON values
* `Payload.Built`, `Object.Built`: what constructors, edits and readings give

## Main results

* `Lawful.edit`: no edit leads out of the lawful payloads, failed ones included
* `Built.lawful`: every payload that can be built is lawful
-/

namespace Parcel

open Json

/-! ## Lawful metadata -/

/-- **Lawful payloads**: the metadata is a proper mapping, and keeps the nesting limit. -/
structure Payload.Lawful (p : Payload) : Prop where
  proper : Proper (.object p.metadata)
  check : Entries.check p.metadata = .ok ()

instance : DecidablePred Payload.Lawful := fun p =>
  decidable_of_iff (Proper (.object p.metadata) ∧ Entries.check p.metadata = .ok ())
    ⟨fun ⟨proper, check⟩ => ⟨proper, check⟩, fun ⟨proper, check⟩ => ⟨proper, check⟩⟩

theorem Entries.check_insert {m : Entries} {key : String} {value : Json}
    (hm : check m = .ok ()) (hvalue : value.depth ≤ maxDepth - 1) :
    check (insert m key value) = .ok () := by
  rw [check_eq_ok_iff, maxDepth] at *
  refine depth_object_le_succ.2 fun entry hmem => ?_
  rcases mem_insert hmem with rfl | hmem
  · exact hvalue
  · exact depth_object_le_succ.1 hm entry hmem

theorem Entries.check_erase {m : Entries} {key : String} (hm : check m = .ok ()) :
    check (erase m key) = .ok () := by
  rw [check_eq_ok_iff, maxDepth] at *
  refine depth_object_le_succ.2 fun entry hmem => ?_
  exact depth_object_le_succ.1 hm entry (List.mem_filter.1 hmem).1

/-- What a typed value is stored as. -/
theorem Offer.of_toMetadata {offer : Offer} {value : Json} (h : offer.toMetadata = .ok value) :
    Proper value ∧ value.depth ≤ maxDepth - 1 := by
  rw [Offer.toMetadata] at h
  split at h
  · contradiction
  · split at h
    · contradiction
    · next hvalue =>
      cases h
      exact Cbor.Item.proper_and_depth_le_of_toJson hvalue

theorem Entries.of_ofText {text : String} {m : Entries} (h : ofText text = .ok m) :
    Proper (.object m) ∧ check m = .ok () := by
  rw [ofText] at h
  split at h
  · contradiction
  · next hparse =>
    split at h
    · contradiction
    · next hcheck =>
      cases h
      exact ⟨proper_of_parse? hparse, hcheck⟩
  · contradiction

/-- Finished values in an edit are JSON values: keys are unique, and numbers are in range. -/
def Edit.Proper : Edit → Prop
  | .setValue _ value => Json.Proper value
  | .setMetadata metadata => Json.Proper (.object metadata)
  | _ => True

namespace Payload

variable {p q : Payload} {args : List Bytes} {m : Entries}

theorem lawful_empty : Lawful empty := ⟨proper_object_nil, rfl⟩

theorem lawful_ofArgs (args : List Bytes) : Lawful (ofArgs args) := ⟨proper_object_nil, rfl⟩

theorem lawful_of_ofParts (hm : Proper (.object m)) (h : ofParts args m = .ok p) : Lawful p := by
  rw [ofParts] at h
  split at h
  · contradiction
  · next hcheck =>
    cases h
    exact ⟨hm, hcheck⟩

theorem of_insertOffers {entries : List (String × Offer)} {m' : Entries}
    (hm : Proper (.object m) ∧ Entries.check m = .ok ()) (h : insertOffers m entries = .ok m') :
    Proper (.object m') ∧ Entries.check m' = .ok () := by
  induction entries generalizing m with
  | nil =>
    cases h
    exact hm
  | cons entry rest ih =>
    obtain ⟨key, offer⟩ := entry
    rw [insertOffers] at h
    split at h
    · contradiction
    · next value hvalue =>
      obtain ⟨hproper, hdepth⟩ := Offer.of_toMetadata hvalue
      exact ih ⟨proper_insert hm.1 hproper, Entries.check_insert hm.2 hdepth⟩ h

theorem lawful_of_ofOffers {entries : List (String × Offer)}
    (h : ofOffers args entries = .ok p) : Lawful p := by
  rw [ofOffers] at h
  split at h
  · contradiction
  · next m hm =>
    cases h
    obtain ⟨hproper, hcheck⟩ := of_insertOffers ⟨proper_object_nil, rfl⟩ hm
    exact ⟨hproper, hcheck⟩

theorem Lawful.of_metadata_eq (hp : Lawful p) (h : q.metadata = p.metadata) : Lawful q :=
  ⟨h ▸ hp.proper, h ▸ hp.check⟩

theorem Lawful.insert {key : String} {value : Json} (hp : Lawful p) (hvalue : Proper value)
    (hdepth : value.depth ≤ maxDepth - 1) :
    Lawful { p with metadata := Entries.insert p.metadata key value } :=
  ⟨proper_insert hp.proper hvalue, Entries.check_insert hp.check hdepth⟩

theorem Lawful.set {key : String} {offer : Offer} {old : Option Json} (hp : Lawful p)
    (h : p.set key offer = .ok (old, q)) : Lawful q := by
  rw [Payload.set] at h
  split at h
  · contradiction
  · next value hvalue =>
    cases h
    obtain ⟨hproper, hdepth⟩ := Offer.of_toMetadata hvalue
    exact hp.insert hproper hdepth

theorem Lawful.setValue {key : String} {value : Json} {old : Option Json} (hp : Lawful p)
    (hvalue : Proper value) (h : p.setValue key value = .ok (old, q)) : Lawful q := by
  rw [Payload.setValue] at h
  split at h
  · contradiction
  · next hcheck =>
    cases h
    exact hp.insert hvalue (Json.check_eq_ok_iff.1 hcheck)

theorem Lawful.remove {key : String} {old : Json} (hp : Lawful p)
    (h : p.remove key = .ok (old, q)) : Lawful q := by
  rw [Payload.remove] at h
  split at h
  · cases h
    exact ⟨proper_erase hp.proper, Entries.check_erase hp.check⟩
  · contradiction

theorem lawful_of_setText {text : String} (h : p.setText text = .ok q) : Lawful q := by
  rw [setText] at h
  split at h
  · contradiction
  · next hm =>
    cases h
    obtain ⟨hproper, hcheck⟩ := Entries.of_ofText hm
    exact ⟨hproper, hcheck⟩

theorem lawful_of_setEncoded {bytes : Bytes} (h : p.setEncoded bytes = .ok q) : Lawful q := by
  rw [setEncoded] at h
  split at h
  · contradiction
  · next hm =>
    cases h
    exact ⟨Entries.proper_of_decode hm, Entries.check_of_decode hm⟩

/-! ## Edits -/

/-- The payload after an edit that can fail is the old one or the changed one. -/
theorem Lawful.settled {α : Type} {reply : α → Edit.Reply} {result : Except Error (α × Payload)}
    (hp : Lawful p) (h : ∀ answer q, result = .ok (answer, q) → Lawful q) :
    Lawful (p.settled reply result).2 := by
  cases result with
  | error error => exact hp
  | ok found => exact h _ _ rfl

theorem Lawful.settled_map {result : Except Error Payload} {reply : Unit → Edit.Reply}
    (hp : Lawful p) (h : ∀ q, result = .ok q → Lawful q) :
    Lawful (p.settled reply (result.map fun changed => ((), changed))).2 := by
  cases result with
  | error error => exact hp
  | ok found => exact h _ rfl

/-- **No edit leads out of the lawful payloads**, whether it succeeds or fails. -/
theorem Lawful.edit (hp : Lawful p) {change : Edit} (hchange : change.Proper) :
    Lawful (p.edit change).2 := by
  cases change with
  -- edits of arguments leave the metadata alone
  | setArg index bytes =>
    refine hp.settled fun old q h => hp.of_metadata_eq ?_
    rw [setArg] at h
    split at h <;> cases h
    rfl
  | removeArg index =>
    refine hp.settled fun old q h => hp.of_metadata_eq ?_
    rw [removeArg] at h
    split at h <;> cases h
    rfl
  | insertArg index bytes =>
    refine hp.settled_map fun q h => hp.of_metadata_eq ?_
    rw [insertArg] at h
    split at h <;> cases h
    rfl
  | push bytes | extend args | clearArgs => exact hp.of_metadata_eq rfl
  | set key offer => exact hp.settled fun old q h => hp.set h
  | setValue key value => exact hp.settled fun old q h => hp.setValue hchange h
  | setMetadata metadata => exact hp.settled_map fun q h => lawful_of_ofParts hchange h
  | remove key => exact hp.settled fun old q h => hp.remove h
  | clearMetadata => exact lawful_ofArgs p.args
  | clear => exact lawful_empty
  | setText text => exact hp.settled_map fun q h => lawful_of_setText h
  | setEncoded bytes => exact hp.settled_map fun q h => lawful_of_setEncoded h

/-! ## Readings -/

/-- Whatever the holder answers, the metadata that is read was decoded. -/
theorem lawful_of_fetch {σ : Type} [Holder σ] {capacity : Nat} {h : Handle} {state state' : σ}
    (hfetch : (fetch capacity h).outcome state = (.ok p, state')) : Lawful p := by
  -- the holder may change between the requests, but the metadata is decoded before it is returned
  obtain ⟨blob, _, -, hfetch⟩ := Session.exists_of_outcome_bind hfetch
  obtain ⟨m, _, hdecode, hfetch⟩ := Session.exists_of_outcome_bind hfetch
  obtain ⟨_, _, -, hfetch⟩ := Session.exists_of_outcome_bind hfetch
  obtain ⟨_, _, -, hfetch⟩ := Session.exists_of_outcome_bind hfetch
  obtain ⟨args, _, -, hfetch⟩ := Session.exists_of_outcome_bind hfetch
  simp only [Session.outcome_ofExcept, Prod.mk.injEq] at hdecode
  simp only [Session.outcome_pure, Prod.mk.injEq, Except.ok.injEq] at hfetch
  obtain ⟨rfl, -⟩ := hfetch
  exact ⟨Entries.proper_of_decode hdecode.1, Entries.check_of_decode hdecode.1⟩

/-! ## All that can be built -/

/-- **Payloads as they can be built**: by the constructors, step by step, by edits, and by reading
from any holder. -/
inductive Built : Payload → Prop
  | empty : Built empty
  | ofArgs (args : List Bytes) : Built (ofArgs args)
  | ofParts {args : List Bytes} {m : Entries} {p : Payload} (hm : Proper (.object m))
      (h : ofParts args m = .ok p) : Built p
  | ofMetadata {m : Entries} {p : Payload} (hm : Proper (.object m)) (h : ofMetadata m = .ok p) :
      Built p
  | ofOffers {args : List Bytes} {entries : List (String × Offer)} {p : Payload}
      (h : ofOffers args entries = .ok p) : Built p
  | withArg {p : Payload} (hp : Built p) (bytes : Bytes) : Built (p.withArg bytes)
  | withEntry {p q : Payload} (hp : Built p) {key : String} {offer : Offer}
      (h : p.withEntry key offer = .ok q) : Built q
  | edit {p : Payload} (hp : Built p) {change : Edit} (hchange : change.Proper) :
      Built (p.edit change).2
  | fetch {σ : Type} [Holder σ] {capacity : Nat} {h : Handle} {state state' : σ} {p : Payload}
      (hfetch : (fetch capacity h).outcome state = (.ok p, state')) : Built p

/-- **Every payload that can be built is lawful.** -/
theorem Built.lawful (hp : Built p) : Lawful p := by
  induction hp with
  | empty => exact lawful_empty
  | ofArgs args => exact lawful_ofArgs args
  | ofParts hm h => exact lawful_of_ofParts hm h
  | ofMetadata hm h => exact lawful_of_ofParts hm h
  | ofOffers h => exact lawful_of_ofOffers h
  | withArg hp bytes ih => exact ih.of_metadata_eq rfl
  | @withEntry p q hp key offer h ih =>
    -- setting an entry forgets the old value
    cases hset : p.set key offer with
    | error error => simp [Payload.withEntry, hset, Except.map] at h
    | ok found =>
      simp only [Payload.withEntry, hset, Except.map, Except.ok.injEq] at h
      exact h ▸ ih.set hset
  | edit hp hchange ih => exact ih.edit hchange
  | fetch hfetch => exact lawful_of_fetch hfetch

/-- Every lawful payload can be built, from its parts. -/
theorem Lawful.built (hp : Lawful p) : Built p := by
  refine @Built.ofParts p.args p.metadata p hp.proper ?_
  rw [ofParts, hp.check]

end Payload

/-- Objects around payloads as they can be built. Names are checked by their type. -/
def Object.Built (object : Object) : Prop :=
  object.payload.Built

end Parcel
