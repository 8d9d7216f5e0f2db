import Parcel.Proofs.Exchange.Fetch

/-!
# Live objects stay readable

Whatever requests a store was given, and whether it refused them or not, each live handle can be
read: nothing in the stored object was accepted without the checks that reading makes again.

## Main results

* `StoredObject.Readable.exists_object`: what is read of a readable object
* `Store.live_objects_stay_readable`: every live handle of every store can be read
-/

namespace Parcel

variable {h : Handle} {stored : StoredObject}

/-- **A readable object is read**, by each of the readers that its kind allows. -/
theorem StoredObject.Readable.exists_object (hs : stored.Readable) (h : Handle) :
    ∃ o : Object, stored.object h = .ok o ∧ stored.payload = .ok o.payload ∧
      o.kind = stored.kind ∧
      stored.command h =
        match o with
        | .data _ => .error (.handleMismatch h .command)
        | .command c => .ok c := by
  obtain ⟨m, hm⟩ := hs.decodes
  have hpayload : stored.payload = .ok ⟨stored.args, m⟩ := by
    rw [StoredObject.payload, hm]
    rfl
  cases hnames : stored.names with
  | none =>
    refine ⟨.data ⟨stored.args, m⟩, ?_, hpayload, ?_, ?_⟩
    · simp [StoredObject.object, hnames, hpayload, Except.map]
    · simp [Object.kind, StoredObject.kind, hnames]
    · simp [StoredObject.command, hnames]
  | some names =>
    -- names were checked before they were stored, so they are identifiers when they are read
    obtain ⟨hinterface, hoperation⟩ := hs.names names hnames
    have hcommand : stored.command h =
        .ok ⟨⟨names.1, hinterface⟩, ⟨names.2, hoperation⟩, ⟨stored.args, m⟩⟩ := by
      simp [StoredObject.command, hnames, hpayload, Except.bind, Command.ofPayload,
        Identifier.ofString, hinterface, hoperation]
    refine ⟨.command ⟨⟨names.1, hinterface⟩, ⟨names.2, hoperation⟩, ⟨stored.args, m⟩⟩, ?_, hpayload,
      ?_, hcommand⟩
    · simp [StoredObject.object, hnames, hcommand, Except.map]
    · simp [Object.kind, StoredObject.kind, hnames]

namespace Store

variable {s : Store}

/-- Reading for people needs no more than the other readings. -/
theorem exists_dump (hstored : s.object h = .ok stored) (hs : stored.Readable) :
    ∃ text, s.dump h = .ok text := by
  obtain ⟨m, hm⟩ := hs.decodes
  simp [dump, hstored, hm]

/-- **Live objects stay readable.** After any requests, accepted or refused, a live handle has an
object of the kind it was given out with, whose metadata decodes and whose names are identifiers.
Reading it as an object and as a payload succeeds for every size of the first buffer with one and
the same result; reading it as a command succeeds if it is one, and is a mismatch otherwise. -/
theorem live_objects_stay_readable {limit : Option Nat} {s₀ : Store} (hs : ofLimit limit = .ok s₀)
    (requests : List Request) :
    let (allotted, s) := s₀.run requests
    ∀ h ∈ s.liveHandles, ∃ stored, s.object h = .ok stored ∧
      (∃ m, Entries.decode stored.metadata = .ok m) ∧
      (∀ interface operation, stored.names = some (interface, operation) →
        isIdentifier interface = true ∧ isIdentifier operation = true) ∧
      ((h, stored.kind) ∈ allotted ∧ ∀ kind, (h, kind) ∈ allotted → kind = stored.kind) ∧
      (∃ o : Object, o.kind = stored.kind ∧ ∀ capacity,
        (Object.fetch capacity h).outcome s = (.ok o, s) ∧
        (Payload.fetch capacity h).outcome s = (.ok o.payload, s) ∧
        (Command.fetch capacity h).outcome s =
          (match o with
            | .data _ => .error (.handleMismatch h .command)
            | .command c => .ok c, s)) ∧
      ∃ text, s.dump h = .ok text := by
  have hsound := sound_run hs requests
  intro h hlive
  obtain ⟨stored, hstored⟩ := (mem_liveHandles hsound.advance.wellFormed).1 hlive
  have hreadable := hsound.readable h stored (object_eq_ok_iff.1 hstored)
  -- all readings come from the one stored object, which decides about them
  obtain ⟨o, hobject, hpayload, hkind, hcommand⟩ := hreadable.exists_object h
  refine ⟨stored, hstored, hreadable.decodes, fun interface operation => hreadable.names _,
    hsound.kind_unique hstored, ⟨o, hkind, fun capacity => ⟨?_, ?_, ?_⟩⟩,
    exists_dump hstored hreadable⟩
  · rw [Object.fetch_store hstored, hobject]
  · rw [Payload.fetch_store hstored, hpayload]
  · rw [Command.fetch_store hstored, hcommand]

/-- A command with an argument, the only object that the bound leaves room for. -/
theorem live_objects_stay_readable_command :
    ∃ s₀, ofLimit (some 1) = .ok s₀ ∧
      let s := (s₀.run [.allocateCommand "lamp" "switch", .push 1 [7], .allocateData]).2
      1 ∈ s.liveHandles ∧ ∃ o : Object, ∀ capacity,
        (Object.fetch capacity 1).outcome s = (.ok o, s) := by
  have hs : ofLimit (some 1) = .ok { empty with limit := some 1 } := rfl
  refine ⟨_, hs, by decide +kernel, ?_⟩
  obtain ⟨stored, -, -, -, -, ⟨o, -, hread⟩, -⟩ := live_objects_stay_readable hs
    [.allocateCommand "lamp" "switch", .push 1 [7], .allocateData] 1 (by decide +kernel)
  exact ⟨o, fun capacity => (hread capacity).1⟩

end Store

end Parcel
