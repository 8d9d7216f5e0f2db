import Parcel.Proofs.Exchange.Put

/-!
# What is written is read back

An object that was written to a store is read back as an equal object, for every size of the first
buffer. The handle that it was written under is the only one that changes.

The store may have any history, and the handle may be new or have held an object of either kind. The
metadata comes back in canonical order, so the objects agree without being the same entry by entry.

## Main definitions

* `Transferred`: what holds after an object was written

## Main results

* `Object.payload_stored`, `Object.command_stored`: what is read of an object as it is stored
* `Object.put_round_trip`: every transfer that succeeds can be read back
-/

namespace Parcel

open Json

variable {o : Object} {s s' : Store} {h : Handle}

namespace Object

/-- The payload as it is read back: the entries are in canonical order. -/
def readBack (o : Object) : Payload :=
  ⟨o.payload.args, Entries.canonical o.payload.metadata⟩

/-- **The payload of a stored object** is read back. -/
theorem payload_stored (hp : o.payload.Lawful)
    (haddressable : Addressable (.object o.payload.metadata)) (names : Option (String × String)) :
    (o.stored names).payload = .ok o.readBack := by
  simp only [StoredObject.payload, stored, Entries.decode_encode hp.proper haddressable hp.check]
  rfl

theorem same_readBack (hp : o.payload.Lawful) : o.readBack.same o.payload = true := by
  have hreordered := (reordered_canonical (.object o.payload.metadata)).symm
  have hproper := (reordered_canonical (.object o.payload.metadata)).proper hp.proper
  have hsame : Entries.same (Entries.canonical o.payload.metadata) o.payload.metadata = true :=
    hreordered.same hproper
  simp [Payload.same, hsame, readBack]

/-- **A stored command** is read back with its names. -/
theorem command_stored {c : Command} (hp : c.payload.Lawful)
    (haddressable : Addressable (.object c.payload.metadata)) (names : Option (String × String)) :
    ((Object.command c).stored names).object h =
      .ok (.command { c with payload := (Object.command c).readBack }) := by
  have hpayload := payload_stored (o := .command c) hp haddressable names
  have hcommand : ((Object.command c).stored names).command h =
      .ok { c with payload := (Object.command c).readBack } := by
    rw [StoredObject.command, hpayload]
    simp [stored, nameTexts, Except.bind, Command.ofPayload, Identifier.ofString_text]
  rw [StoredObject.object, hcommand]
  rfl

end Object

/-! ## Transfers -/

/-- **What holds after an object was written** under the handle `h`, which is the target if there is
one, and a new handle otherwise. -/
structure Transferred (o : Object) (target : Option Handle) (s : Store) (h : Handle) (s' : Store) :
    Prop where
  /-- The payload is read back, whatever the size of the first buffer. -/
  payload : ∃ p : Payload, p.same o.payload = true ∧
    ∀ capacity, (Payload.fetch capacity h).outcome s' = (.ok p, s')
  /-- A command is read back as a command. -/
  command : o.kind = .command → s'.perform (.kind h) = (.ok .command, s') ∧
    ∃ read : Object, read.same o = true ∧
      ∀ capacity, (Object.fetch capacity h).outcome s' = (.ok read, s')
  /-- Data under a new handle is data. -/
  fresh : o.kind = .data → target = none → s'.perform (.kind h) = (.ok .data, s')
  /-- Data under an old handle leaves its kind and its names alone. -/
  reused : o.kind = .data → target ≠ none →
    (s'.perform (.kind h)).1 = (s.perform (.kind h)).1 ∧
      (s'.perform (.names h)).1 = (s.perform (.names h)).1
  /-- Nothing but the names is left of an old object. -/
  whole : ∃ names, s'.object h = .ok ⟨Entries.encode o.payload.metadata, o.payload.args, names⟩
  /-- The handle is the target, or one that was not live. -/
  handle : ∀ k, target = some k → h = k
  new : target = none → h ∉ s.liveHandles
  /-- No other handle becomes live or dead. -/
  live : ∀ k, k ∈ s'.liveHandles ↔ k ∈ s.liveHandles ∨ target = none ∧ k = h
  /-- No other handle's object changes. -/
  others : ∀ k, k ≠ h → s'.object k = s.object k

/-- What is stored for an object is read back as an equal payload. -/
theorem exists_fetch_payload (hp : o.payload.Lawful)
    (haddressable : Addressable (.object o.payload.metadata)) {names : Option (String × String)}
    (hstored : s.object h = .ok (o.stored names)) :
    ∃ p : Payload, p.same o.payload = true ∧
      ∀ capacity, (Payload.fetch capacity h).outcome s = (.ok p, s) := by
  refine ⟨o.readBack, Object.same_readBack hp, fun capacity => ?_⟩
  rw [Payload.fetch_store hstored, Object.payload_stored hp haddressable]

/-- What is stored for a command is read back as an equal command. -/
theorem exists_fetch_command (hp : o.payload.Lawful)
    (haddressable : Addressable (.object o.payload.metadata)) (hcommand : o.kind = .command)
    {names : Option (String × String)} (hstored : s.object h = .ok (o.stored names)) :
    s.perform (.kind h) = (.ok .command, s) ∧ ∃ read : Object, read.same o = true ∧
      ∀ capacity, (Object.fetch capacity h).outcome s = (.ok read, s) := by
  cases o with
  | data p => contradiction
  | command c =>
    refine ⟨?_, .command { c with payload := (Object.command c).readBack }, ?_, fun capacity => ?_⟩
    · simp [Store.perform_kind, hstored, Object.stored, Object.nameTexts, StoredObject.kind,
        Except.map]
    · have hsame : (Object.command c).readBack.same c.payload = true := Object.same_readBack hp
      simp [Object.same, Command.same, hsame]
    · rw [Object.fetch_store hstored, Object.command_stored hp haddressable]

/-- The object of a live handle is replaced, and nothing else happens. -/
theorem transferred_live (hs : s.objects.WellFormed) (hp : o.payload.Lawful)
    (haddressable : Addressable (.object o.payload.metadata)) {old : StoredObject}
    (hold : s.object h = .ok old) :
    Transferred o (some h) s h (s.withObject h (o.stored old.names)) := by
  have hstored := object_withObject_self hold (o.stored old.names)
  have hobject := Store.object_withObject s h
  refine ⟨exists_fetch_payload hp haddressable hstored,
    fun hcommand => exists_fetch_command hp haddressable hcommand hstored, fun _ => nofun,
    ?_, ⟨_, hstored⟩, fun k => Option.some.inj, nofun, ?_, ?_⟩
  · intro hdata _
    -- data has no names of its own, so the old ones are stored again
    cases o with
    | command c => contradiction
    | data p =>
      have hnames : ((Object.data p).stored old.names).names = old.names := rfl
      simp [Store.perform_kind, Store.perform_names, Store.names, hstored, hold, StoredObject.kind,
        hnames, Except.map]
  · intro k
    rw [Store.mem_liveHandles hs, Store.mem_liveHandles (hs.update h _)]
    by_cases hk : k = h
    · simp [hk, hstored, hold]
    · simp [hobject, hk]
  · intro k hk
    rw [hobject, if_neg hk]

/-- A new handle is given out for the object, and nothing else happens. -/
theorem transferred_new (hs : s.objects.WellFormed) (hp : o.payload.Lawful)
    (haddressable : Addressable (.object o.payload.metadata))
    (hi : s.insert (.empty o.nameTexts) = .ok (h, s')) :
    Transferred o none s h (s'.withObject h (o.stored none)) := by
  obtain ⟨hdead, hinsert⟩ := Store.object_insert hs hi
  have hempty : s'.object h = .ok (.empty o.nameTexts) := by rw [hinsert, if_pos rfl]
  have hstored := object_withObject_self hempty (o.stored none)
  have hs' : s'.objects.WellFormed := by
    obtain ⟨objects, htable, rfl⟩ := Store.insert_eq_ok hi
    exact hs.insert htable
  have hobject : ∀ k, k ≠ h → (s'.withObject h (o.stored none)).object k = s.object k := by
    intro k hk
    rw [Store.object_withObject, if_neg hk, hinsert, if_neg hk]
  refine ⟨exists_fetch_payload hp haddressable hstored,
    fun hcommand => exists_fetch_command hp haddressable hcommand hstored, ?_,
    fun _ => nofun, ⟨_, hstored⟩, nofun, ?_, ?_, hobject⟩
  · -- data is stored without names, so there are none to report
    intro hdata _
    cases o with
    | command c => contradiction
    | data p =>
      have hkind : ((Object.data p).stored none).kind = .data := rfl
      simp [Store.perform_kind, hstored, hkind, Except.map]
  · -- the handle of a new object was not live before
    intro _
    rw [Store.mem_liveHandles hs]
    rintro ⟨x, hx⟩
    exact hdead x hx
  · intro k
    rw [Store.mem_liveHandles hs, Store.mem_liveHandles (hs'.update h _)]
    by_cases hk : k = h
    · simp [hk, hstored]
    · simp [hobject k hk, hk]

/-- **The round trip of an object with its frame.** In any store that requests can lead to, an
object that can be built and is written with success, under a given handle or a new one, is read
back as an equal object; only that handle's object changes, and only a new handle becomes live.
Lengths fit 64 bits, as in memory. -/
theorem Object.put_round_trip {limit : Option Nat} {s₀ : Store} (hs : Store.ofLimit limit = .ok s₀)
    (requests : List Request) (ho : o.Built)
    (haddressable : Addressable (.object o.payload.metadata))
    (target : Option Handle)
    (hput : (o.put target).outcome (s₀.run requests).2 = (.ok h, s')) :
    Transferred o target (s₀.run requests).2 h s' := by
  have hwf := (Store.sound_run hs requests).advance.wellFormed
  have hp := ho.lawful
  rcases put_cases hwf hp haddressable hput with ⟨old, rfl, hold, -, rfl⟩ | ⟨s₁, rfl, hi, rfl⟩
  · exact transferred_live hwf hp haddressable hold
  · exact transferred_new hwf hp haddressable hi

/-- A payload with an entry, written under the handle of a command that has an argument. -/
theorem Object.put_round_trip_reused :
    let requests : List Request := [.allocateCommand "lamp" "switch", .push 1 [1]]
    let o : Object := .data ⟨[[7]], [("level", .integer 3)]⟩
    ∃ s₀, Store.ofLimit none = .ok s₀ ∧ o.Built ∧ Addressable (.object o.payload.metadata) ∧
      ∃ s', (o.put (some 1)).outcome (s₀.run requests).2 = (.ok 1, s') ∧
        Transferred o (some 1) (s₀.run requests).2 1 s' := by
  intro requests o
  have ho : o.Built := Payload.Lawful.built (by decide)
  have haddressable : Addressable (.object o.payload.metadata) := by decide
  have hold : (Store.empty.run requests).2.object 1 =
      .ok ⟨emptyEncoding, [[1]], some ("lamp", "switch")⟩ := by
    rw [Store.object_eq_ok_iff]
    decide +kernel
  have hput := Object.put_live ho.lawful haddressable hold (by simp [o, Object.kind])
  exact ⟨_, Store.ofLimit_none, ho, haddressable, _, hput,
    Object.put_round_trip Store.ofLimit_none requests ho haddressable (some 1) hput⟩

end Parcel
