import Parcel.Proofs.Payload.Insertion

/-!
# Payloads can always be sent on

Constructors, edits and readings check what they store in four different ways, and some of them rely
on a check that was made elsewhere. Whichever of them made a payload what it is, its metadata passes
the check of finished values, and its bytes can be read into any other payload.

## Main definitions

* `Command.Built`: what the constructors, edits and readings of commands give
* `Payload.Transportable`: payloads whose bytes every payload can take over

## Main results

* `Command.Built.payload`: a command carries a payload that can be built
* `Payload.Lawful.transportable`: metadata that is lawful can be sent on
* `Payload.built_is_transportable`: every payload that can be built can be sent on
-/

namespace Parcel

open Json

/-! ## Commands -/

/-- **Commands as they can be built**: around payloads that can be, by the constructors from texts,
by edits of the payload, and by reading from any holder. -/
inductive Command.Built : Command → Prop
  | ofIdentifiers (interface operation : Identifier) {p : Payload} (hp : p.Built) :
      Built ⟨interface, operation, p⟩
  | ofPayload {interface operation : String} {p : Payload} {c : Command} (hp : p.Built)
      (h : ofPayload interface operation p = .ok c) : Built c
  | ofOffers {interface operation : String} {args : List Bytes} {entries : List (String × Offer)}
      {c : Command} (h : ofOffers interface operation args entries = .ok c) : Built c
  | edit {c : Command} (hc : Built c) {change : Edit} (hchange : change.Proper) :
      Built (c.edit change).2
  | fetch {σ : Type} [Holder σ] {capacity : Nat} {h : Handle} {state state' : σ} {c : Command}
      (hfetch : (fetch capacity h).outcome state = (.ok c, state')) : Built c

namespace Command

variable {c : Command} {p : Payload} {interface operation : String}

theorem payload_of_ofPayload (h : ofPayload interface operation p = .ok c) : c.payload = p := by
  rw [ofPayload] at h
  split at h
  · contradiction
  · split at h <;> cases h
    rfl

theorem built_payload_of_ofOffers {args : List Bytes} {entries : List (String × Offer)}
    (h : ofOffers interface operation args entries = .ok c) : c.payload.Built := by
  rw [ofOffers] at h
  split at h
  · contradiction
  · split at h
    · contradiction
    · next hpayload =>
      cases h
      exact .ofOffers hpayload

/-- A command that is read carries a payload that was read. -/
theorem built_payload_of_fetch {σ : Type} [Holder σ] {capacity : Nat} {h : Handle}
    {state state' : σ} (hfetch : (fetch capacity h).outcome state = (.ok c, state')) :
    c.payload.Built := by
  -- the kind is asked for first, then the payload is read, and the names come last
  obtain ⟨_, _, -, hfetch⟩ := Session.exists_of_outcome_bind hfetch
  obtain ⟨payload, _, hpayload, hfetch⟩ := Session.exists_of_outcome_bind hfetch
  obtain ⟨_, _, -, hfetch⟩ := Session.exists_of_outcome_bind hfetch
  simp only [Session.outcome_ofExcept, Prod.mk.injEq] at hfetch
  rw [payload_of_ofPayload hfetch.1]
  exact .fetch hpayload

/-- **A command carries a payload that can be built**, however the command came about. -/
theorem Built.payload (hc : c.Built) : c.payload.Built := by
  induction hc with
  | ofIdentifiers interface operation hp => exact hp
  | ofPayload hp h => exact payload_of_ofPayload h ▸ hp
  | ofOffers h => exact built_payload_of_ofOffers h
  | edit hc hchange ih => exact ih.edit hchange
  | fetch hfetch => exact built_payload_of_fetch hfetch

end Command

/-! ## Transport -/

namespace Payload

variable {p : Payload}

/-- **Payloads that can be sent on**: the metadata passes the check of finished values, it is proper
at every level, and its bytes can be read into any payload, which keeps its arguments and has equal
metadata afterwards. -/
structure Transportable (p : Payload) : Prop where
  check : Entries.check p.metadata = .ok ()
  proper : Proper (.object p.metadata)
  read : ∀ q : Payload, ∃ changed, q.setEncoded (Entries.encode p.metadata) = .ok changed ∧
    changed.args = q.args ∧ Entries.same changed.metadata p.metadata = true

/-- **Lawful metadata can be sent on.** What is read is the mapping in canonical order. -/
theorem Lawful.transportable (hp : p.Lawful) (haddressable : Addressable (.object p.metadata)) :
    Transportable p where
  check := hp.check
  proper := hp.proper
  read q := by
    have hreordered := (reordered_canonical (.object p.metadata)).symm
    have hproper := (reordered_canonical (.object p.metadata)).proper hp.proper
    refine ⟨⟨q.args, Entries.canonical p.metadata⟩, ?_, rfl, hreordered.same hproper⟩
    rw [setEncoded_encode hp.proper haddressable, if_pos hp.check]

/-- **Every payload can be sent on**, if it was built by constructors, edits that succeeded or
failed, and readings, or is carried by a command that was. Lengths fit 64 bits, as in memory. -/
theorem built_is_transportable (hp : p.Built ∨ ∃ c : Command, c.Built ∧ c.payload = p)
    (haddressable : Addressable (.object p.metadata)) : Transportable p := by
  have hbuilt : p.Built := by
    rcases hp with hp | ⟨c, hc, rfl⟩
    · exact hp
    · exact hc.payload
  exact hbuilt.lawful.transportable haddressable

/-- An array of the greatest depth is set in a command, then one that is too deep, which fails. -/
theorem built_is_transportable_deep :
    let c : Command := ⟨⟨"lamp", by decide⟩, ⟨"switch", by decide⟩, .empty⟩
    let changed := ((c.edit (.setValue "list" (nest 63))).2.edit (.setValue "list" (nest 64))).2
    changed.Built ∧ Addressable (.object changed.payload.metadata) ∧
      changed.payload.metadata = [("list", nest 63)] ∧ Transportable changed.payload := by
  intro c changed
  have hok : (empty.edit (.setValue "list" (nest 63))).2 = ⟨[], [("list", nest 63)]⟩ := by
    have hcheck : (nest 63).check = .ok () := (check_nest 63).2 (by decide)
    simp only [edit, (setValue_json "list").1 hcheck]
    rfl
  have hfailed : (edit ⟨[], [("list", nest 63)]⟩ (.setValue "list" (nest 64))).2 =
      ⟨[], [("list", nest 63)]⟩ := by
    have hcheck : (nest 64).check ≠ .ok () := fun h => absurd ((check_nest 64).1 h) (by decide)
    obtain ⟨value, reason, hset⟩ :=
      (setValue_json (p := ⟨[], [("list", nest 63)]⟩) "list").2 hcheck
    simp only [edit, hset]
    rfl
  have hpayload : changed.payload = ⟨[], [("list", nest 63)]⟩ := by
    show ((empty.edit (.setValue "list" (nest 63))).2.edit (.setValue "list" (nest 64))).2 = _
    rw [hok, hfailed]
  have hfirst : Edit.Proper (.setValue "list" (nest 63)) := proper_nest 63
  have hsecond : Edit.Proper (.setValue "list" (nest 64)) := proper_nest 64
  have hbuilt : changed.Built := .edit (.edit (.ofIdentifiers _ _ .empty) hfirst) hsecond
  have haddressable : Addressable (.object changed.payload.metadata) := by
    rw [hpayload]
    simp [addressable_object, Entries.keys, addressable_nest]
    decide
  refine ⟨hbuilt, haddressable, by rw [hpayload], ?_⟩
  exact built_is_transportable (.inr ⟨changed, hbuilt, rfl⟩) haddressable

end Payload

end Parcel
