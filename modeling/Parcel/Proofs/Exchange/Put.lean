import Parcel.Proofs.Exchange.Fetch
import Parcel.Proofs.Payload.Construction

/-!
# Writing to a store

A transfer first makes the object under its handle empty, then writes the metadata, then adds the
arguments. None of these requests is refused for a lawful payload, so what is stored in the end is a
whole object, and nothing of the one before it is left but the names.

## Main definitions

* `Object.nameTexts`, `Object.stored`: an object as it is stored
* `Object.allocate`: a handle for a new object

## Main results

* `Payload.write_store`: the metadata and the arguments of a payload
* `outcome_keepOrDelete`, `Object.put_none`: a new handle, and what becomes of it
* `Object.put_cases`: what a transfer that succeeds did to the store
-/

namespace Parcel

open Json

namespace Object

/-- The names of a command, as texts. -/
def nameTexts : Object → Option (String × String)
  | .data _ => none
  | .command c => some (c.interface.text, c.operation.text)

/-- The object that is stored for an object, with the names of the old one if it has none. -/
def stored (o : Object) (names : Option (String × String)) : StoredObject :=
  ⟨Entries.encode o.payload.metadata, o.payload.args, o.nameTexts.or names⟩

end Object

variable {s s' : Store} {h : Handle} {old stored : StoredObject} {p : Payload}

/-! ## Single requests -/

theorem outcome_ask_clear (hstored : s.object h = .ok stored) :
    (ask (.clear h) : Session Store Unit).outcome s =
      (.ok (), s.withObject h (.empty stored.names)) := by
  rw [outcome_ask_store, Store.perform_clear, Store.clear, hstored]
  rfl

theorem outcome_ask_setMetadata (hstored : s.object h = .ok stored) {blob : Bytes} {m : Entries}
    (hblob : Entries.decode blob = .ok m) :
    (ask (.setMetadata h blob) : Session Store Unit).outcome s =
      (.ok (), s.withObject h { stored with metadata := blob }) := by
  rw [outcome_ask_store, Store.perform_setMetadata]
  simp only [Store.setMetadata, hstored, hblob]
  rfl

theorem outcome_ask_push (hstored : s.object h = .ok stored) (arg : Bytes) :
    (ask (.push h arg) : Session Store Unit).outcome s =
      (.ok (), s.withObject h { stored with args := stored.args ++ [arg] }) := by
  rw [outcome_ask_store, Store.perform_push, Store.push, hstored]
  rfl

theorem outcome_ask_setNames (hstored : s.object h = .ok stored) {names : String × String}
    (hnames : stored.names = some names) (interface operation : Identifier) :
    (ask (.setNames h interface.text operation.text) : Session Store Unit).outcome s =
      (.ok (), s.withObject h { stored with names := some (interface.text, operation.text) }) := by
  have hcheck := Store.checkNames_eq_ok_iff.2 ⟨interface.isValid, operation.isValid⟩
  rw [outcome_ask_store, Store.perform_setNames]
  simp only [Store.setNames, hcheck, hstored, hnames]
  rfl

theorem outcome_ask_of_dead {error : Error} (hdead : s.object h = .error error) :
    (ask (.clear h) : Session Store Unit).outcome s = (.error error, s) ∧
      (ask (.kind h) : Session Store Kind).outcome s = (.error error, s) := by
  constructor
  · rw [outcome_ask_store, Store.perform_clear, Store.clear, hdead]
    rfl
  · rw [outcome_ask_store, Store.perform_kind, hdead]
    rfl

/-! ## Payloads -/

theorem object_withObject_self (hlive : s.object h = .ok old) (stored : StoredObject) :
    (s.withObject h stored).object h = .ok stored := by
  rw [Store.object_withObject, if_pos rfl, hlive]
  rfl

/-- **Arguments are added** in order, behind those already there. -/
theorem pushAll_store (hlive : s.object h = .ok old) (stored : StoredObject) (args : List Bytes) :
    (pushAll h args).outcome (s.withObject h stored) =
      (.ok (), s.withObject h { stored with args := stored.args ++ args }) := by
  -- after each argument the handle still holds an object, which is the one replaced next
  induction args generalizing stored with
  | nil =>
    rw [pushAll, List.append_nil]
    rfl
  | cons arg rest ih =>
    have hpush := outcome_ask_push (object_withObject_self hlive stored) arg
    rw [pushAll, Session.outcome_bind_of_ok hpush, Store.withObject_withObject, ih,
      List.append_assoc, List.singleton_append]

/-- **A payload is written** under a handle that was made empty. -/
theorem Payload.write_store (hp : p.Lawful) (haddressable : Addressable (.object p.metadata))
    {names : Option (String × String)} (hempty : s.object h = .ok (.empty names)) :
    (p.write h).outcome s =
      (.ok (), s.withObject h ⟨Entries.encode p.metadata, p.args, names⟩) := by
  have hdecode := Entries.decode_encode hp.proper haddressable hp.check
  rw [Payload.write, Session.outcome_bind_of_ok (outcome_ask_setMetadata hempty hdecode),
    pushAll_store hempty]
  rfl

/-- A payload written under a live handle replaces the old one. -/
theorem Payload.put_live (hp : p.Lawful) (haddressable : Addressable (.object p.metadata))
    (hold : s.object h = .ok old) :
    (p.put (some h)).outcome s = (.ok h, s.withObject h ((Object.data p).stored old.names)) := by
  have hempty := object_withObject_self hold (.empty old.names)
  have hwrite := Payload.write_store hp haddressable hempty
  rw [Store.withObject_withObject] at hwrite
  rw [Payload.put, Session.outcome_bind_of_ok (outcome_ask_clear hold),
    Session.outcome_bind_of_ok hwrite]
  rfl

/-! ## Commands -/

variable {c : Command}

/-- A command written under the live handle of a command replaces the old one. -/
theorem Command.put_live (hp : c.payload.Lawful)
    (haddressable : Addressable (.object c.payload.metadata)) (hold : s.object h = .ok old)
    {names : String × String} (hnames : old.names = some names) :
    (c.put (some h)).outcome s =
      (.ok h, s.withObject h ((Object.command c).stored old.names)) := by
  have hrequire := outcome_requireCommand hold
  rw [hnames] at hrequire
  -- the object is emptied, written and renamed under the one handle, and the last of these counts
  have hempty := object_withObject_self hold (.empty old.names)
  have hwrite := Payload.write_store hp haddressable hempty
  rw [Store.withObject_withObject] at hwrite
  have hwritten := object_withObject_self hold
    ⟨Entries.encode c.payload.metadata, c.payload.args, old.names⟩
  have hset := outcome_ask_setNames hwritten hnames c.interface c.operation
  rw [Store.withObject_withObject] at hset
  rw [Command.put, Session.outcome_bind_of_ok hrequire,
    Session.outcome_bind_of_ok (outcome_ask_clear hold), Session.outcome_bind_of_ok hwrite,
    Session.outcome_bind_of_ok hset]
  rfl

/-! ## New handles -/

section

variable {σ : Type} [Holder σ]

/-- **A new handle is kept** if what is written under it succeeds, and deleted otherwise. Whether
that succeeds makes no difference to the error. -/
theorem outcome_keepOrDelete (h : Handle) (writing : Session σ Unit) (state : σ) :
    (keepOrDelete h writing).outcome state =
      match writing.outcome state with
      | (.ok _, changed) => (.ok h, changed)
      | (.error error, changed) => (.error error, (Holder.perform (.delete h) changed).2) := by
  rw [keepOrDelete, Session.outcome_tryCatch, Session.outcome_bind]
  rcases writing.outcome state with ⟨error | _, changed⟩
  · dsimp only
    rw [Session.outcome_bind, Session.outcome_tryCatch, Session.outcome_ask]
    rcases Holder.perform (.delete h) changed with ⟨_ | _, final⟩ <;> rfl
  · rfl

/-- A handle for a new object, which is empty but for its names. -/
def Object.allocate : Object → Session σ Handle
  | .data _ => ask .allocateData
  | .command c => ask (.allocateCommand c.interface.text c.operation.text)

/-- A new object gets a handle, and is written under it. -/
theorem Object.put_none (o : Object) :
    (o.put none : Session σ Handle) =
      o.allocate >>= fun h => keepOrDelete h (o.payload.write h) := by
  cases o <;> rfl

end

/-- A new handle for a command is a new handle, since its names are identifiers. -/
theorem insertCommand_eq (s : Store) (c : Command) :
    s.insertCommand c.interface.text c.operation.text =
      s.insert (.empty (Object.command c).nameTexts) := by
  rw [Store.insertCommand,
    Store.checkNames_eq_ok_iff.2 ⟨c.interface.isValid, c.operation.isValid⟩]
  rfl

/-- The store gives out a handle for a new object, or has no room for it. -/
theorem outcome_allocate_store (o : Object) :
    (o.allocate : Session Store Handle).outcome s = s.answered (s.insert (.empty o.nameTexts)) := by
  cases o with
  | data p => exact s.perform_allocateData
  | command c =>
    rw [← insertCommand_eq]
    exact s.perform_allocateCommand _ _

/-! ## Objects -/

namespace Object

variable {o : Object}

/-- **An object under a live handle** that takes it replaces the old one. -/
theorem put_live (hp : o.payload.Lawful) (haddressable : Addressable (.object o.payload.metadata))
    (hold : s.object h = .ok old) (hkind : o.kind = .command → old.kind = .command) :
    (o.put (some h)).outcome s = (.ok h, s.withObject h (o.stored old.names)) := by
  cases o with
  | data p => exact Payload.put_live hp haddressable hold
  | command c =>
    have hcommand := hkind rfl
    cases hnames : old.names with
    | none => simp [StoredObject.kind, hnames] at hcommand
    | some names =>
      rw [← hnames]
      exact Command.put_live hp haddressable hold hnames

/-- What is stored under a new handle has the object's own names. -/
theorem stored_none (o : Object) :
    o.stored none = ⟨Entries.encode o.payload.metadata, o.payload.args, o.nameTexts⟩ := by
  rw [stored, Option.or_none]

/-- **An object under a new handle.** -/
theorem put_new (hs : s.objects.WellFormed) (hp : o.payload.Lawful)
    (haddressable : Addressable (.object o.payload.metadata))
    (hi : s.insert (.empty o.nameTexts) = .ok (h, s')) :
    (o.put none).outcome s = (.ok h, s'.withObject h (o.stored none)) := by
  have hallocate : (o.allocate : Session Store Handle).outcome s = (.ok h, s') := by
    rw [outcome_allocate_store, hi]
    rfl
  have hempty := (Store.object_insert hs hi).2 h
  rw [if_pos rfl] at hempty
  rw [put_none, Session.outcome_bind_of_ok hallocate, outcome_keepOrDelete,
    Payload.write_store hp haddressable hempty, stored_none]

/-- Nothing is written under a dead handle. -/
theorem put_dead {error : Error} (hdead : s.object h = .error error) :
    (o.put (some h)).outcome s = (.error error, s) := by
  obtain ⟨hclear, hkind⟩ := outcome_ask_of_dead hdead
  cases o with
  | data p =>
    rw [Object.put, Payload.put, Session.outcome_bind_of_error hclear]
  | command c =>
    have hrequire : (requireCommand h : Session Store Unit).outcome s = (.error error, s) := by
      rw [requireCommand, Session.outcome_bind_of_error hkind]
    rw [Object.put, Command.put, Session.outcome_bind_of_error hrequire]

/-- No command is written under the handle of data. -/
theorem put_mismatch (hold : s.object h = .ok old) (ho : o.kind = .command)
    (hkind : old.kind ≠ .command) :
    (o.put (some h)).outcome s = (.error (.handleMismatch h .command), s) := by
  cases o with
  | data p => contradiction
  | command c =>
    have hrequire := outcome_requireCommand hold
    cases hnames : old.names with
    | none =>
      rw [hnames] at hrequire
      rw [Object.put, Command.put, Session.outcome_bind_of_error hrequire]
    | some names => simp [StoredObject.kind, hnames] at hkind

/-- Nothing is written if no handle is given out. -/
theorem put_refused {error : Error} (hi : s.insert (.empty o.nameTexts) = .error error) :
    (o.put none).outcome s = (.error error, s) := by
  have hallocate : (o.allocate : Session Store Handle).outcome s = (.error error, s) := by
    rw [outcome_allocate_store, hi]
    rfl
  rw [put_none, Session.outcome_bind_of_error hallocate]

/-- **What a transfer that succeeds did**: it replaced the object of a live handle that takes it, or
stored the object under a new handle. -/
theorem put_cases (hs : s.objects.WellFormed) (hp : o.payload.Lawful)
    (haddressable : Addressable (.object o.payload.metadata)) {target : Option Handle}
    (hput : (o.put target).outcome s = (.ok h, s')) :
    (∃ old, target = some h ∧ s.object h = .ok old ∧ (o.kind = .command → old.kind = .command) ∧
      s' = s.withObject h (o.stored old.names)) ∨
    (∃ s₁, target = none ∧ s.insert (.empty o.nameTexts) = .ok (h, s₁) ∧
      s' = s₁.withObject h (o.stored none)) := by
  cases target with
  | some k =>
    cases hold : s.object k with
    | error error =>
      rw [put_dead hold] at hput
      simp at hput
    | ok old =>
      -- the only live handles that refuse an object are those of data, and only a command
      by_cases hkind : o.kind = .command → old.kind = .command
      · rw [put_live hp haddressable hold hkind] at hput
        obtain ⟨hk, rfl⟩ := Prod.mk.inj hput
        cases hk
        exact .inl ⟨old, rfl, hold, hkind, rfl⟩
      · rw [Classical.not_imp] at hkind
        rw [put_mismatch hold hkind.1 hkind.2] at hput
        simp at hput
  | none =>
    cases hi : s.insert (.empty o.nameTexts) with
    | error error =>
      rw [put_refused hi] at hput
      simp at hput
    | ok found =>
      obtain ⟨k, s₁⟩ := found
      rw [put_new hs hp haddressable hi] at hput
      obtain ⟨hk, rfl⟩ := Prod.mk.inj hput
      cases hk
      exact .inr ⟨s₁, rfl, rfl, rfl⟩

end Object

end Parcel
