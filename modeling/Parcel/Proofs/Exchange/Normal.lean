import Parcel.Proofs.Exchange.Live
import Parcel.Proofs.Exchange.Put
import Parcel.Proofs.Metadata.Addressable
import Parcel.Proofs.Metadata.Canonical

/-!
# Accepted bytes become normal

A store keeps metadata as the bytes it came in, which may be any encoding of a mapping: open
lengths, wide headers, narrow floats, entries in any order. The mapping they hold is one that can be
written, so an object that is read and written back has the canonical bytes of the same mapping, and
from then on reading it and writing it back changes nothing.

## Main definitions

* `Fetches`: the readings of an object of a given kind
* `writeBack`: a reading whose object is written back under the same handle
* `Entries.Normalizes`: what holds of accepted bytes, and of objects that have them for metadata

## Main results

* `Entries.encode_canonical`: writing once more changes nothing
* `outcome_writeBack`: what is written back is the same object with canonical bytes
* `Entries.accepted_bytes_normalize`: accepted bytes, and all stores that requests can lead to
-/

namespace Parcel

open Json

variable {s : Store} {h : Handle} {old stored : StoredObject} {b : Bytes} {m : Entries}
  {capacity : Nat} {kind : Kind} {reading : Session Store Object}

/-- What is written for a mapping is written for its canonical form too. -/
theorem Entries.encode_canonical (hproper : Proper (.object m))
    (haddressable : Addressable (.object m)) : encode m.canonical = encode m := by
  have hreordered : Reordered (.object m) (.object m.canonical) := reordered_canonical (.object m)
  exact (encode_eq_encode_iff (hreordered.proper hproper) hproper
    (hreordered.addressable haddressable)
    haddressable).2 hreordered.symm

/-! ## Readings -/

theorem Identifier.text_of_ofString {name : String} {identifier : Identifier}
    (hi : ofString name = .ok identifier) : identifier.text = name := by
  unfold ofString at hi
  split at hi <;> cases hi
  rfl

theorem Command.names_of_ofPayload {interface operation : String} {p : Payload} {c : Command}
    (hc : ofPayload interface operation p = .ok c) :
    c.interface.text = interface ∧ c.operation.text = operation := by
  rw [ofPayload] at hc
  split at hc
  · contradiction
  · next hinterface =>
    split at hc
    · contradiction
    · next hoperation =>
      cases hc
      exact ⟨Identifier.text_of_ofString hinterface, Identifier.text_of_ofString hoperation⟩

/-- A command that is read of a stored object has its names. -/
theorem StoredObject.names_of_command {c : Command} (hc : stored.command h = .ok c) :
    stored.names = some (c.interface.text, c.operation.text) := by
  rw [StoredObject.command] at hc
  split at hc
  · contradiction
  · next interface operation hnames =>
    cases hpayload : stored.payload with
    | error error => simp [hpayload, Except.bind] at hc
    | ok p =>
      obtain ⟨hinterface, hoperation⟩ := Command.names_of_ofPayload (hpayload ▸ hc)
      rw [hnames, hinterface, hoperation]

/-- **The readings of an object** of a given kind: as what it is, as data whatever it is, and as a
command if it is one. -/
inductive Fetches (capacity : Nat) (h : Handle) : Kind → Session Store Object → Prop
  | object (kind : Kind) : Fetches capacity h kind (Object.fetch capacity h)
  | data (kind : Kind) : Fetches capacity h kind (.data <$> Payload.fetch capacity h)
  | command : Fetches capacity h .command (.command <$> Command.fetch capacity h)

/-- **What is read** of a readable object: its arguments and its metadata, under its names if
any. -/
theorem Fetches.exists_outcome (hreading : Fetches capacity h kind reading)
    (hstored : s.object h = .ok stored) (hkind : stored.kind = kind) (hs : stored.Readable)
    (hm : Entries.decode stored.metadata = .ok m) :
    ∃ o : Object, reading.outcome s = (.ok o, s) ∧ o.payload = ⟨stored.args, m⟩ ∧
      (o.kind = .command → stored.kind = .command) ∧
        o.nameTexts.or stored.names = stored.names := by
  have hpayload : stored.payload = .ok ⟨stored.args, m⟩ := by
    rw [StoredObject.payload, hm]
    rfl
  obtain ⟨o, hobject, ho, hokind, hcommand⟩ := hs.exists_object h
  rw [hpayload, Except.ok.injEq] at ho
  -- only a command brings names of its own, and they are those that are stored
  have hnames : o.nameTexts.or stored.names = stored.names := by
    cases o with
    | data p => rfl
    | command c => rw [StoredObject.names_of_command hcommand]; rfl
  cases hreading with
  | object =>
    exact ⟨o, by rw [Object.fetch_store hstored, hobject], ho.symm, fun hc => hokind ▸ hc, hnames⟩
  | data =>
    refine ⟨.data ⟨stored.args, m⟩, ?_, rfl, by simp [Object.kind], rfl⟩
    rw [Session.outcome_map, Payload.fetch_store hstored, hpayload]
    rfl
  | command =>
    cases o with
    | data p => simp [Object.kind, hkind] at hokind
    | command c =>
      refine ⟨.command c, ?_, ho.symm, fun _ => hkind, hnames⟩
      rw [Session.outcome_map, Command.fetch_store hstored, hcommand]
      rfl

/-! ## Writing back -/

/-- The object that is read, written back under the same handle. -/
def writeBack {σ : Type} [Holder σ] (h : Handle) (reading : Session σ Object) :
    Session σ Handle := do
  let object ← reading
  object.put (some h)

/-- **What is written back** is the same object with canonical bytes. -/
theorem outcome_writeBack (hold : s.object h = .ok old) (hs : old.Readable)
    (hdecode : Entries.decode b = .ok m) (haddressable : Addressable (.object m))
    (hreading : Fetches capacity h old.kind reading) :
    (writeBack h reading).outcome (s.withObject h { old with metadata := b }) =
      (.ok h, s.withObject h { old with metadata := Entries.encode m }) := by
  have hstored := object_withObject_self hold { old with metadata := b }
  obtain ⟨o, hread, hpayload, hkind, hnames⟩ :=
    hreading.exists_outcome hstored rfl ⟨⟨m, hdecode⟩, hs.names⟩ hdecode
  have hlawful : o.payload.Lawful := by
    rw [hpayload]
    exact ⟨Entries.proper_of_decode hdecode, Entries.check_of_decode hdecode⟩
  have hput := Object.put_live hlawful (by rw [hpayload]; exact haddressable) hstored hkind
  have hwritten : o.stored old.names = { old with metadata := Entries.encode m } := by
    rw [Object.stored, hpayload, hnames]
  rw [writeBack, Session.outcome_bind_of_ok hread, hput, Store.withObject_withObject, hwritten]

namespace Entries

/-- **What holds of accepted bytes** that hold the mapping `m`. -/
structure Normalizes (b : Bytes) (m : Entries) : Prop where
  /-- Keys are unique in every object, integers fit 64 bits, and doubles are finite. -/
  proper : Proper (.object m)
  check : check m = .ok ()
  /-- What is written for the mapping is read back, its entries in canonical order and all else as
  it was. -/
  reread : ∃ read, decode (encode m) = .ok read ∧ Reordered (.object m) (.object read) ∧
    Ordered (.object read)
  /-- A live object that is given the bytes for metadata, whatever it held before, has what is
  written for the mapping once it was read and written back; after that nothing changes any more. -/
  settles : ∀ {limit : Option Nat} {s₀ : Store}, Store.ofLimit limit = .ok s₀ →
    ∀ (requests : List Request) (h : Handle), h ∈ (s₀.run requests).2.liveHandles →
      ∃ old, (s₀.run requests).2.object h = .ok old ∧
        let holding (bytes : Bytes) : Store :=
          (s₀.run requests).2.withObject h { old with metadata := bytes }
        (s₀.run requests).2.perform (.setMetadata h b) = (.ok (), holding b) ∧
        ∀ capacity reading, Fetches capacity h old.kind reading →
          (writeBack h reading).outcome (holding b) = (.ok h, holding (encode m)) ∧
          (writeBack h reading).outcome (holding (encode m)) = (.ok h, holding (encode m))

/-- **Accepted bytes become normal.** Whatever encoding the bytes are, the mapping that is read of
them is one that can be written, and an object that has the bytes for metadata has the canonical
ones instead as soon as it was read and written back, by any of its readings and with any size of
the first buffer. The length of the bytes fits 64 bits, as in memory. -/
theorem accepted_bytes_normalize (hdecode : decode b = .ok m) (hlength : b.length < UInt64.size) :
    Normalizes b m := by
  have hproper := proper_of_decode hdecode
  have hcheck := check_of_decode hdecode
  have haddressable := addressable_of_decode hdecode hlength
  have hreordered : Reordered (.object m) (.object m.canonical) := reordered_canonical (.object m)
  have hreread := decode_encode hproper haddressable hcheck
  refine ⟨hproper, hcheck, ⟨m.canonical, hreread, hreordered, ordered_canonical hproper⟩, ?_⟩
  intro limit s₀ hs requests h hlive
  have hsound := Store.sound_run hs requests
  obtain ⟨old, hold⟩ := (Store.mem_liveHandles hsound.advance.wellFormed).1 hlive
  have hreadable := hsound.readable h old (Store.object_eq_ok_iff.1 hold)
  refine ⟨old, hold, outcome_ask_setMetadata hold hdecode,
    fun capacity reading hreading => ⟨?_, ?_⟩⟩
  · exact outcome_writeBack hold hreadable hdecode haddressable hreading
  · -- the second time the canonical form is written, which has the same bytes
    have hagain :=
      outcome_writeBack hold hreadable hreread (hreordered.addressable haddressable) hreading
    rwa [encode_canonical hproper haddressable] at hagain

/-- A map of open length with a narrow float, a wide integer and its keys out of order, as the
metadata of a command with an argument. -/
theorem accepted_bytes_normalize_command :
    let b : Bytes := [0xbf, 0x62, 0x62, 0x62, 0xf9, 0x3c, 0x00, 0x61, 0x61, 0x18, 0x01, 0xff]
    let m : Entries := [("bb", .double ⟨0x3ff0000000000000⟩), ("a", .integer 1)]
    let s := (Store.empty.run [.allocateCommand "lamp" "switch", .push 1 [7]]).2
    let read : Store := s.withObject 1 ⟨b, [[7]], some ("lamp", "switch")⟩
    let written : Store := s.withObject 1 ⟨encode m, [[7]], some ("lamp", "switch")⟩
    decode b = .ok m ∧ b.length < UInt64.size ∧ Proper (.object m) ∧
      s.perform (.setMetadata 1 b) = (.ok (), read) ∧
      (writeBack 1 (.command <$> Command.fetch 1 1)).outcome read = (.ok 1, written) ∧
      (writeBack 1 (Object.fetch 256 1)).outcome written = (.ok 1, written) := by
  intro b m s read written
  have hdecode : decode b = .ok m := by rfl
  have hlength : b.length < UInt64.size := by decide
  have h := accepted_bytes_normalize hdecode hlength
  obtain ⟨old, hold, hset, hback⟩ := h.settles Store.ofLimit_none
    [.allocateCommand "lamp" "switch", .push 1 [7]] 1 (by decide +kernel)
  have hobject : s.object 1 = .ok ⟨emptyEncoding, [[7]], some ("lamp", "switch")⟩ := by
    rw [Store.object_eq_ok_iff]
    decide +kernel
  cases hold.symm.trans hobject
  exact ⟨hdecode, hlength, h.proper, hset, (hback _ _ .command).1,
    (hback _ _ (.object _)).2⟩

end Entries

end Parcel
