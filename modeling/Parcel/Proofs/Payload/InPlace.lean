import Parcel.Object
import Parcel.Payload.InPlace
import Parcel.Proofs.Exchange.Session

/-!
# A failed edit changes nothing

Edits are made in place, and what a failed one has written is not taken back. But each of them
checks all that it has to check before its first write, or finds out from a write that had no
effect. So it is all or nothing, and what it writes belongs to the half of the payload that it is
about, the arguments or the metadata.

## Main definitions

* `Edit.changesArgs`, `Edit.changesMetadata`: the halves that an edit is about
* `Edit.Effect`: what an edit does to a payload, with its answer
* `Object.editEach`: one edit after the other, failed ones included

## Main results

* `Edit.effect_inPlace`: what the steps of every edit do
* `Edit.outcome_inPlace`: an edit is the outcome of its steps
* `Object.failed_edits_change_nothing`: no edit of an object does half of what it is asked for
* `Object.editEach_accepted`: failed edits can be left out
-/

namespace Parcel

/-- To take out a key that is not there changes nothing. -/
theorem Entries.erase_of_get?_eq_none {entries : Entries} {key : String}
    (h : entries.get? key = none) : entries.erase key = entries := by
  rw [erase, List.filter_eq_self]
  intro entry hmem
  have hne : key ≠ entry.1 := by simpa using List.lookup_eq_none_iff.1 h entry hmem
  simpa using hne.symm

namespace Edit

variable {p : Payload}

/-! ## What an edit does -/

/-- Whether an edit is about the arguments. -/
def changesArgs : Edit → Bool
  | .setArg _ _ | .removeArg _ | .push _ | .insertArg _ _ | .extend _ | .clearArgs | .clear => true
  | .set _ _ | .setValue _ _ | .setMetadata _ | .remove _ | .clearMetadata | .setText _
  | .setEncoded _ => false

/-- Whether an edit is about the metadata. -/
def changesMetadata : Edit → Bool
  | .set _ _ | .setValue _ _ | .setMetadata _ | .remove _ | .clearMetadata | .clear | .setText _
  | .setEncoded _ => true
  | .setArg _ _ | .removeArg _ | .push _ | .insertArg _ _ | .extend _ | .clearArgs => false

/-- **What an edit does** to a payload, with its answer: nothing if it fails, and otherwise
something to the halves that it is about. -/
inductive Effect (change : Edit) (p : Payload) : Except Error Reply → Payload → Prop
  | failed (error : Error) : Effect change p (.error error) p
  | made {reply : Reply} {changed : Payload}
      (hargs : change.changesArgs = false → changed.args = p.args)
      (hmetadata : change.changesMetadata = false → changed.metadata = p.metadata) :
      Effect change p (.ok reply) changed

namespace Effect

variable {change : Edit} {changed : Payload} {reply : Except Error Reply} {error : Error}

theorem eq_of_error (h : change.Effect p reply changed) (herror : reply = .error error) :
    changed = p := by
  cases h with
  | failed error => rfl
  | made _ _ => contradiction

theorem args_eq (h : change.Effect p reply changed) (hargs : change.changesArgs = false) :
    changed.args = p.args := by
  cases h with
  | failed error => rfl
  | made hkept _ => exact hkept hargs

theorem metadata_eq (h : change.Effect p reply changed)
    (hmetadata : change.changesMetadata = false) : changed.metadata = p.metadata := by
  cases h with
  | failed error => rfl
  | made _ hkept => exact hkept hmetadata

end Effect

variable {change : Edit}

/-- A first step that only looks at the payload: if it fails, nothing has been written. -/
theorem effect_of_looking {α : Type} {first : Session Payload α} {next : α → Session Payload Reply}
    (hfirst : (first.outcome p).2 = p)
    (hnext : ∀ a, (first.outcome p).1 = .ok a →
      change.Effect p ((next a).outcome p).1 ((next a).outcome p).2) :
    change.Effect p ((first >>= next).outcome p).1 ((first >>= next).outcome p).2 := by
  rw [Session.outcome_bind]
  rcases houtcome : first.outcome p with ⟨result, between⟩
  rw [houtcome] at hfirst hnext
  obtain rfl : between = p := hfirst
  cases result with
  | error error => exact .failed error
  | ok a => exact hnext a rfl

/-- Steps that come to an end without an error. -/
theorem effect_of_outcome {steps : Session Payload Reply} {reply : Reply} {changed : Payload}
    (hsteps : steps.outcome p = (.ok reply, changed))
    (hargs : change.changesArgs = false → changed.args = p.args)
    (hmetadata : change.changesMetadata = false → changed.metadata = p.metadata) :
    change.Effect p (steps.outcome p).1 (steps.outcome p).2 := by
  rw [hsteps]
  exact .made hargs hmetadata

/-- **What the steps of every edit do.** -/
theorem effect_inPlace (change : Edit) (p : Payload) :
    change.Effect p (change.inPlace.outcome p).1 (change.inPlace.outcome p).2 := by
  cases change with
  | setArg index bytes | removeArg index =>
    refine effect_of_looking rfl fun old _ => ?_
    exact effect_of_outcome rfl nofun fun _ => rfl
  | insertArg index bytes =>
    refine effect_of_looking rfl fun count _ => ?_
    split
    · exact .failed _
    · exact effect_of_outcome rfl nofun fun _ => rfl
  | push bytes | extend args | clearArgs => exact effect_of_outcome rfl nofun fun _ => rfl
  | set key offer | setValue key value | setMetadata metadata | setText text | setEncoded bytes =>
    refine effect_of_looking rfl fun _ _ => ?_
    exact effect_of_outcome rfl (fun _ => rfl) nofun
  | clearMetadata => exact effect_of_outcome rfl (fun _ => rfl) nofun
  | clear => exact effect_of_outcome rfl nofun nofun
  | remove key =>
    refine effect_of_looking rfl fun old hold => ?_
    cases old with
    | some value => exact effect_of_outcome rfl (fun _ => rfl) nofun
    | none =>
      -- there was nothing to take out, so the write has changed nothing
      have hsame : { p with metadata := Entries.erase p.metadata key } = p := by
        rw [Entries.erase_of_get?_eq_none (Except.ok.inj hold)]
      dsimp only
      rw [Session.outcome_write_throw, hsame]
      exact .failed _

/-! ## Edits are their steps -/

/-- **An edit is the outcome of its steps.** -/
theorem outcome_inPlace (change : Edit) (p : Payload) :
    change.inPlace.outcome p = p.edit change := by
  cases change with
  | setArg index bytes =>
    rw [inPlace, Session.outcome_bind, Session.outcome_look, Payload.edit, Payload.setArg,
      Payload.arg]
    cases p.args[index]? <;> rfl
  | removeArg index =>
    rw [inPlace, Session.outcome_bind, Session.outcome_look, Payload.edit, Payload.removeArg,
      Payload.arg]
    cases p.args[index]? <;> rfl
  | insertArg index bytes =>
    rw [inPlace, Session.outcome_bind, Session.outcome_look, Payload.edit, Payload.insertArg]
    dsimp only
    split
    · next hbehind =>
      rw [if_neg (Nat.not_le_of_lt hbehind)]
      rfl
    · next hwithin =>
      rw [if_pos (Nat.le_of_not_lt hwithin)]
      rfl
  | set key offer =>
    rw [inPlace, Session.outcome_bind, Session.outcome_ofExcept, Payload.edit, Payload.set]
    cases offer.toMetadata <;> rfl
  | setValue key value =>
    rw [inPlace, Session.outcome_bind, Session.outcome_ofExcept, Payload.edit, Payload.setValue]
    cases value.check <;> rfl
  | setMetadata metadata =>
    rw [inPlace, Session.outcome_bind, Session.outcome_ofExcept, Payload.edit, Payload.setMetadata,
      Payload.ofParts]
    cases Entries.check metadata <;> rfl
  | setText text =>
    rw [inPlace, Session.outcome_bind, Session.outcome_ofExcept, Payload.edit, Payload.setText]
    cases Entries.ofText text <;> rfl
  | setEncoded bytes =>
    rw [inPlace, Session.outcome_bind, Session.outcome_ofExcept, Payload.edit, Payload.setEncoded]
    cases Entries.decode bytes <;> rfl
  | remove key =>
    rw [inPlace, Session.outcome_bind, Session.outcome_look, Payload.edit, Payload.remove]
    cases hold : Entries.get? p.metadata key with
    | none =>
      dsimp only
      rw [Session.outcome_write_throw, Entries.erase_of_get?_eq_none hold]
      rfl
    | some value => rfl
  | push bytes | extend args | clearArgs | clearMetadata | clear => rfl

/-- **What every edit does.** -/
theorem effect_edit (change : Edit) (p : Payload) :
    change.Effect p (p.edit change).1 (p.edit change).2 := by
  rw [← outcome_inPlace]
  exact change.effect_inPlace p

end Edit

/-! ## Objects -/

namespace Object

variable {object : Object}

@[simp] theorem payload_withPayload (object : Object) (payload : Payload) :
    (object.withPayload payload).payload = payload := by
  cases object <;> rfl

@[simp] theorem withPayload_payload (object : Object) :
    object.withPayload object.payload = object := by
  cases object <;> rfl

@[simp] theorem kind_withPayload (object : Object) (payload : Payload) :
    (object.withPayload payload).kind = object.kind := by
  cases object <;> rfl

@[simp] theorem names?_withPayload (object : Object) (payload : Payload) :
    (object.withPayload payload).names? = object.names? := by
  cases object <;> rfl

theorem edit_eq_of_error {change : Edit} {error : Error}
    (h : (object.edit change).1 = .error error) : (object.edit change).2 = object := by
  have hpayload := (change.effect_edit object.payload).eq_of_error h
  show object.withPayload (object.payload.edit change).2 = object
  rw [hpayload, withPayload_payload]

/-- **A failed edit changes nothing**, and one that succeeds keeps to the half of the payload that
it is about, whether the payload stands alone or in a command. In both cases the object is what the
steps of the edit leave behind, although none of them is taken back, and it keeps its kind and its
names. -/
theorem failed_edits_change_nothing (object : Object) (change : Edit) :
    let (reply, changed) := object.edit change
    change.inPlace.outcome object.payload = (reply, changed.payload) ∧
      (∀ error, reply = .error error → changed = object) ∧
      (change.changesArgs = false → changed.payload.args = object.payload.args) ∧
      (change.changesMetadata = false → changed.payload.metadata = object.payload.metadata) ∧
      changed.kind = object.kind ∧ changed.names? = object.names? := by
  have heffect := change.effect_edit object.payload
  refine ⟨?_, fun error herror => edit_eq_of_error herror, ?_, ?_, ?_, ?_⟩
  · rw [payload_withPayload]
    exact change.outcome_inPlace object.payload
  · intro hargs
    rw [payload_withPayload]
    exact heffect.args_eq hargs
  · intro hmetadata
    rw [payload_withPayload]
    exact heffect.metadata_eq hmetadata
  · exact object.kind_withPayload _
  · exact object.names?_withPayload _

/-- A command whose metadata loses a key that it has, and then one that it does not have. -/
theorem failed_edits_change_nothing_remove :
    let command : Object :=
      .command ⟨⟨"lamp", by decide⟩, ⟨"switch", by decide⟩, ⟨[[7]], [("on", .null), ("at", .null)]⟩⟩
    let (_, removed) := command.edit (.remove "on")
    removed.payload.args = [[7]] ∧ removed.payload.metadata = [("at", .null)] ∧
      removed.names? = command.names? ∧
      (removed.edit (.remove "on")).1 = .error (.keyNotFound "on") ∧
      (removed.edit (.remove "on")).2 = removed := by
  intro command
  obtain ⟨-, -, hargs, -, -, hnames⟩ := failed_edits_change_nothing command (.remove "on")
  obtain ⟨-, hfailed, -⟩ :=
    failed_edits_change_nothing (command.edit (.remove "on")).2 (.remove "on")
  exact ⟨hargs rfl, rfl, hnames, rfl, hfailed _ rfl⟩

/-! ## Runs of edits -/

/-- One edit after the other, failed ones included: the answers, and the object afterwards. -/
def editEach (object : Object) : List Edit → List (Except Error Edit.Reply) × Object
  | [] => ([], object)
  | change :: rest =>
    let (reply, changed) := object.edit change
    let (replies, final) := editEach changed rest
    (reply :: replies, final)

/-- The edits of a run that succeed. -/
def accepted (object : Object) : List Edit → List Edit
  | [] => []
  | change :: rest =>
    match object.edit change with
    | (.ok _, changed) => change :: accepted changed rest
    | (.error _, changed) => accepted changed rest

/-- **Failed edits can be left out** of a run: the others lead to the same object, and none of them
fails for it. -/
theorem editEach_accepted (object : Object) (changes : List Edit) :
    object.editEach (object.accepted changes) =
      ((object.editEach changes).1.filter Except.isOk, (object.editEach changes).2) := by
  induction changes generalizing object with
  | nil => rfl
  | cons change rest ih =>
    rcases hedit : object.edit change with ⟨error | reply, changed⟩
    · -- the rest of the run goes on from the same object
      have hsame := edit_eq_of_error (congrArg Prod.fst hedit)
      rw [hedit] at hsame
      subst hsame
      rw [accepted, editEach, hedit]
      exact ih changed
    · rw [accepted, editEach, hedit]
      dsimp only
      rw [editEach, hedit]
      dsimp only
      rw [ih changed]
      rfl

end Object

end Parcel
