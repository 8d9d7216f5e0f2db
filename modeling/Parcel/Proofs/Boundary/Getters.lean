import Parcel.Proofs.Boundary.History
import Parcel.Proofs.Exchange.Live

/-!
# Items are delivered into buffers of their size

Six calls deliver an item into memory of their caller. What they find is written only if all of it
fits, with the terminator that follows a text, and then behind it everything stays. The true length
of the item is reported whenever the item is there and the pointers can be used, so that a caller
who makes room for it gets it with the next call, and with less room does not.

## Main definitions

* `Getter`, `Getter.call`: the calls that deliver an item
* `Getter.item`, `Getter.ending`: the item, and what follows it in memory
* `Getter.Stored`: the items of an object
* `Memory.Filled`: memory with something at its front, and all else as before
* `Getter.Outcome`: how a delivery ends
* `Getter.Obeys`: what callers rely on

## Main results

* `outcome_run`: every such call ends in one of three ways
* `stored_item`: the items of live handles
* `getters_fill_exactly_what_fits`: what callers rely on holds of every such call
-/

namespace Parcel

/-- No error asks for a larger buffer. -/
theorem Status.ofError_ne_bufferTooSmall (error : Error) : ofError error ≠ .bufferTooSmall := by
  cases error <;> simp [ofError]

/-! ## Memory -/

namespace Memory

/-- **Memory with something written to its front**: what was written takes the place of as many
bytes, and the bytes behind it are unchanged. Nothing is written to a null pointer. -/
inductive Filled (written : Bytes) : Memory → Memory → Prop
  | bytes {replaced : Bytes} (hlength : replaced.length = written.length) (behind : Bytes) :
      Filled written (.bytes (replaced ++ behind)) (.bytes (written ++ behind))
  | null (hnothing : written = []) : Filled written (.null 0) (.null 0)

theorem filled_write {memory : Memory} {written : Bytes} (husable : memory.isUnusable = false)
    (hfits : written.length ≤ memory.length) : Filled written memory (memory.write written) := by
  cases memory with
  | null claimed =>
    -- a null pointer can be used if no length is claimed, and then nothing is to be written
    obtain rfl : claimed = 0 := by simpa [isUnusable] using husable
    exact .null (List.length_eq_zero_iff.1 (Nat.le_zero.1 hfits))
  | bytes contents =>
    -- what is replaced is as much of the front as is written
    have hfits : written.length ≤ List.length contents := hfits
    have hreplaced : (contents.take written.length).length = written.length :=
      List.length_take_of_le hfits
    have hfilled := Filled.bytes hreplaced (contents.drop written.length)
    rw [List.take_append_drop] at hfilled
    rwa [write, Bytes.overlay, List.take_of_length_le hfits]

end Memory

/-! ## Calls that deliver an item -/

/-- The calls that deliver an item. -/
inductive Getter
  | encoded
  | text
  | arg (index : Nat)
  | interface
  | operation
  | dump

/-- The delivery of an item with its ending, if the item is there. -/
def Target.deliverFound (target : Target) (ending : Bytes) : Except Status Bytes → Delivery
  | .error status => target.refuse status
  | .ok item => target.deliver item.length (item ++ ending)

/-- Nothing follows bytes that are no text. -/
theorem Target.deliverFound_bytes (target : Target) (item : Bytes) :
    target.deliverFound [] (.ok item) = target.deliverBytes item := by
  rw [deliverFound, List.append_nil]
  rfl

namespace Getter

/-- The call for an item of a handle. -/
def call (getter : Getter) (h : Handle) (target : Target) : Call :=
  match getter with
  | .encoded => .getEncoded h target
  | .text => .getText h target
  | .arg index => .getArg h index target
  | .interface => .getInterface h target
  | .operation => .getOperation h target
  | .dump => .dump h target

/-- A text as an item. -/
def ofText (text : Except Error String) : Except Status Bytes :=
  (text.map Utf8.bytes).mapError .ofError

/-- The item of a handle, or why there is none. -/
def item (getter : Getter) (h : Handle) (s : Store) : Except Status Bytes :=
  match getter with
  | .encoded => ((s.object h).map StoredObject.metadata).mapError .ofError
  | .text => ofText (Call.metadataText h s)
  | .arg index =>
    match s.object h with
    | .error error => .error (.ofError error)
    | .ok stored =>
      match stored.args[index]? with
      | none => .error .indexOutOfRange
      | some found => .ok found
  | .interface => ofText ((s.names h).map Prod.fst)
  | .operation => ofText ((s.names h).map Prod.snd)
  | .dump => ofText (s.dump h)

/-- What follows the item in memory: a terminator, if it is a text. -/
def ending (getter : Getter) : Bytes :=
  match getter with
  | .encoded => []
  | .arg _ => []
  | _ => [terminator]

variable {getter : Getter} {shared : Shared} {s : Store} {h : Handle} {target : Target}
  {made : Delivery}

/-- **How a delivery ends.** -/
inductive Outcome (getter : Getter) (h : Handle) (shared : Shared) (target : Target) :
    Delivery → Prop
  /-- The store is poisoned, there is no such item, or a pointer cannot be used. -/
  | refused {status : Status} (hok : status ≠ .ok) (hsmall : status ≠ .bufferTooSmall)
      (hcause : shared.poisoned = true ∨ target.isUsable = false ∨
        getter.item h shared.store = .error status) :
      Outcome getter h shared target (target.refuse status)
  /-- The item does not fit. -/
  | tooSmall {item : Bytes} (hpoisoned : shared.poisoned = false)
      (hitem : getter.item h shared.store = .ok item) (husable : target.isUsable = true)
      (hshort : target.memory.length < item.length + getter.ending.length) :
      Outcome getter h shared target ⟨.bufferTooSmall, some item.length, target.memory⟩
  /-- The item is written to the front of the memory. -/
  | delivered {item : Bytes} (hpoisoned : shared.poisoned = false)
      (hitem : getter.item h shared.store = .ok item) (husable : target.isUsable = true)
      (hfits : item.length + getter.ending.length ≤ target.memory.length) :
      Outcome getter h shared target
        ⟨.ok, some item.length, target.memory.write (item ++ getter.ending)⟩

/-- A text is delivered with a terminator behind it. -/
theorem deliver_text (text : Store → Except Error String) (s : Store) (target : Target) :
    (Shared.ofStore s).deliver target text target.deliverText =
      (.delivery (target.deliverFound [terminator] (ofText (text s))), .ofStore s) := by
  rw [Shared.deliver_ofStore]
  cases text s with
  | error error => rfl
  | ok found => rfl

/-- **A call for an item** delivers it if it is there, and changes nothing in the store. -/
theorem run_call (getter : Getter) (s : Store) (h : Handle) (target : Target) :
    (getter.call h target).run (.ofStore s) =
      (.delivery (target.deliverFound getter.ending (getter.item h s)), .ofStore s) := by
  -- bytes are delivered as they are found; the texts share `deliver_text`
  cases getter with
  | encoded =>
    rw [call, Call.run, Shared.deliver_ofStore, item]
    cases s.object h with
    | error error => rfl
    | ok stored =>
      show _ = (Answer.delivery (target.deliverFound [] (.ok stored.metadata)), _)
      rw [target.deliverFound_bytes]
      rfl
  | arg index =>
    rw [call, Call.run, Shared.deliver_ofStore, item]
    cases s.object h with
    | error error => rfl
    | ok stored =>
      dsimp only [Except.map]
      cases stored.args[index]? with
      | none => rfl
      | some found =>
        show _ = (Answer.delivery (target.deliverFound [] (.ok found)), _)
        rw [target.deliverFound_bytes]
  | text => exact deliver_text (Call.metadataText h) s target
  | interface => exact deliver_text (fun store => (store.names h).map Prod.fst) s target
  | operation => exact deliver_text (fun store => (store.names h).map Prod.snd) s target
  | dump => exact deliver_text (fun store => store.dump h) s target

theorem run_call_poisoned (getter : Getter) (s : Store) (h : Handle) (target : Target) :
    (getter.call h target).run ⟨s, true⟩ =
      (.delivery (target.refuse .internalError), ⟨s, true⟩) := by
  cases getter <;> rfl

/-- An item is missing for a reason of its own. -/
theorem status_of_item_eq_error {status : Status} (hitem : getter.item h s = .error status) :
    status ≠ .ok ∧ status ≠ .bufferTooSmall := by
  -- but for an index out of range, the reason is an error of the store
  have herror {α : Type} {result : Except Error α}
      (hresult : result.mapError Status.ofError = .error status) :
      status ≠ .ok ∧ status ≠ .bufferTooSmall := by
    cases result with
    | error error =>
      cases hresult
      exact ⟨Status.ofError_ne_ok error, Status.ofError_ne_bufferTooSmall error⟩
    | ok a => contradiction
  cases getter with
  | arg index =>
    simp only [item] at hitem
    split at hitem
    · next error _ =>
      cases hitem
      exact ⟨Status.ofError_ne_ok error, Status.ofError_ne_bufferTooSmall error⟩
    · split at hitem
      · cases hitem
        exact ⟨nofun, nofun⟩
      · contradiction
  | encoded | text | interface | operation | dump => exact herror hitem

/-- **Every call for an item** ends in one of three ways, and leaves the shared store alone. -/
theorem outcome_run (getter : Getter) (shared : Shared) (h : Handle) (target : Target) :
    ∃ made, (getter.call h target).run shared = (.delivery made, shared) ∧
      getter.Outcome h shared target made := by
  obtain ⟨s, poisoned⟩ := shared
  cases poisoned with
  | true =>
    exact ⟨_, run_call_poisoned getter s h target, .refused nofun nofun (.inl rfl)⟩
  | false =>
    refine ⟨_, run_call getter s h target, ?_⟩
    cases hitem : getter.item h s with
    | error status =>
      obtain ⟨hok, hsmall⟩ := status_of_item_eq_error hitem
      exact .refused hok hsmall (.inr (.inr hitem))
    | ok item =>
      have hlength : (item ++ getter.ending).length = item.length + getter.ending.length :=
        List.length_append
      -- the pointers are checked before the length
      rw [Target.deliverFound, Target.deliver, hlength]
      split
      · next hunusable =>
        have hunusable : target.isUsable = false := by simpa using hunusable
        exact .refused nofun nofun (.inr (.inl hunusable))
      · next husable =>
        have husable : target.isUsable = true := by simpa using husable
        split
        · next hshort => exact .tooSmall rfl hitem husable hshort
        · next hfits => exact .delivered rfl hitem husable (Nat.le_of_not_lt hfits)

/-! ## Live handles -/

/-- **The items of an object** that is readable. -/
inductive Stored (stored : StoredObject) : Getter → Except Status Bytes → Prop
  /-- The item is there. -/
  | found {getter : Getter} (item : Bytes) : Stored stored getter (.ok item)
  /-- There are not that many arguments. -/
  | behind {index : Nat} (hindex : stored.args.length ≤ index) :
      Stored stored (.arg index) (.error .indexOutOfRange)
  /-- Only commands have names. -/
  | unnamed {getter : Getter} (hgetter : getter = .interface ∨ getter = .operation)
      (hkind : stored.kind = .data) : Stored stored getter (.error .handleMismatch)

theorem stored_ofText_names {stored : StoredObject} (hstored : s.object h = .ok stored)
    (hgetter : getter = .interface ∨ getter = .operation) (part : String × String → String) :
    Stored stored getter (ofText ((s.names h).map part)) := by
  rw [Store.names, hstored]
  dsimp only
  cases hnames : stored.names with
  | some names => exact .found _
  | none => exact .unnamed hgetter (by simp [StoredObject.kind, hnames])

theorem stored_item {stored : StoredObject} (hstored : s.object h = .ok stored)
    (hreadable : stored.Readable) (getter : Getter) : Stored stored getter (getter.item h s) := by
  obtain ⟨m, hm⟩ := hreadable.decodes
  cases getter with
  | encoded =>
    rw [item, hstored]
    exact .found _
  | text =>
    -- what is stored was decoded before
    rw [item, Call.metadataText, hstored]
    dsimp only
    rw [hm]
    exact .found _
  | arg index =>
    simp only [item, hstored]
    split
    · next hnone => exact .behind (List.getElem?_eq_none_iff.1 hnone)
    · exact .found _
  | interface => exact stored_ofText_names hstored (.inl rfl) Prod.fst
  | operation => exact stored_ofText_names hstored (.inr rfl) Prod.snd
  | dump =>
    obtain ⟨text, hdump⟩ := Store.exists_dump hstored hreadable
    rw [item, hdump]
    exact .found _

/-! ## What callers rely on -/

/-- **What callers rely on** when they call for an item, with what became of the delivery. -/
structure Obeys (getter : Getter) (h : Handle) (shared : Shared) (target : Target)
    (made : Delivery) : Prop where
  /-- In a store that is not poisoned, the length of an item that is there is reported if the
  pointers can be used. -/
  reported : shared.poisoned = false → target.isUsable = true →
    ∀ item, getter.item h shared.store = .ok item → made.length = some item.length
  /-- A call that fails for another reason than the size of the memory writes nothing. -/
  refused : made.status ≠ .ok → made.status ≠ .bufferTooSmall →
    made.length = none ∧ made.memory = target.memory
  /-- If the memory is too small, the true length is reported, and nothing else is written. -/
  tooSmall : made.status = .bufferTooSmall → ∃ item, getter.item h shared.store = .ok item ∧
    made.length = some item.length ∧ made.memory = target.memory
  /-- If the call succeeds, the true length is reported, the item stands at the front of the memory
  with its ending, and all that lies behind is unchanged. -/
  filled : made.status = .ok → ∃ item, getter.item h shared.store = .ok item ∧
    made.length = some item.length ∧
    target.memory.Filled (item ++ getter.ending) made.memory
  /-- Once a length is reported, the call succeeds in the same store with memory of this length and
  that of the ending, whatever the memory holds, and fails with less. -/
  retried : ∀ length, made.length = some length → ∀ memory : Memory,
    ((getter.call h ⟨memory, true⟩).run shared).1.status = .ok ↔
      memory.isUnusable = false ∧ length + getter.ending.length ≤ memory.length

/-- A call for an item that is there succeeds exactly if the memory can be used and has room. -/
theorem status_run_eq_ok_iff {found : Bytes} (hpoisoned : shared.poisoned = false)
    (hitem : getter.item h shared.store = .ok found) (memory : Memory) :
    ((getter.call h ⟨memory, true⟩).run shared).1.status = .ok ↔
      memory.isUnusable = false ∧ found.length + getter.ending.length ≤ memory.length := by
  obtain ⟨made, hrun, hmade⟩ := outcome_run getter shared h ⟨memory, true⟩
  rw [hrun, Answer.status]
  cases hmade with
  | refused hok hsmall hcause =>
    constructor
    · intro hstatus
      exact absurd hstatus hok
    · -- nothing but the memory can be the cause
      rintro ⟨husable, -⟩
      rcases hcause with htrue | hunusable | herror
      · simp [hpoisoned] at htrue
      · simp [Target.isUsable, husable] at hunusable
      · simp [hitem] at herror
  | tooSmall _ hitem' _ hshort =>
    cases hitem.symm.trans hitem'
    constructor
    · intro hstatus
      contradiction
    · rintro ⟨-, hfits⟩
      exact absurd hshort (Nat.not_lt_of_le hfits)
  | delivered _ hitem' husable hfits =>
    cases hitem.symm.trans hitem'
    have husable : memory.isUnusable = false := by simpa [Target.isUsable] using husable
    exact ⟨fun _ => ⟨husable, hfits⟩, fun _ => rfl⟩

theorem Outcome.obeys (hmade : getter.Outcome h shared target made) :
    getter.Obeys h shared target made := by
  -- the outcomes exclude each other, so most obligations are about another one
  cases hmade with
  | @refused status hok hsmall hcause =>
    refine ⟨?_, fun _ _ => ⟨rfl, rfl⟩, fun hstatus => absurd hstatus hsmall,
      fun hstatus => absurd hstatus hok, fun length hlength => by contradiction⟩
    intro hpoisoned husable item hitem
    rcases hcause with htrue | hunusable | herror
    · simp [hpoisoned] at htrue
    · simp [husable] at hunusable
    · simp [hitem] at herror
  | @tooSmall item hpoisoned hitem husable hshort =>
    refine ⟨?_, fun _ hsmall => absurd rfl hsmall, fun _ => ⟨item, hitem, rfl, rfl⟩,
      fun hok => by contradiction, ?_⟩
    · intro _ _ item' hitem'
      cases hitem.symm.trans hitem'
      rfl
    · rintro length ⟨⟩ memory
      exact status_run_eq_ok_iff hpoisoned hitem memory
  | @delivered item hpoisoned hitem husable hfits =>
    refine ⟨?_, fun hok => absurd rfl hok, fun hsmall => by contradiction,
      fun _ => ⟨item, hitem, rfl, ?_⟩, ?_⟩
    · intro _ _ item' hitem'
      cases hitem.symm.trans hitem'
      rfl
    · have hmemory : target.memory.isUnusable = false := by
        simp only [Target.isUsable, Bool.and_eq_true] at husable
        simpa using husable.2
      apply Memory.filled_write hmemory
      rwa [List.length_append]
    · rintro length ⟨⟩ memory
      exact status_run_eq_ok_iff hpoisoned hitem memory

end Getter

/-- **Calls for an item fill exactly what fits.** In every shared store that callers lead to, such a
call changes nothing in the store, and its caller can rely on what is written to its memory and on
the length that is reported. The item of a live handle is there, but for arguments behind the last
one and for the names of what is no command. -/
theorem getters_fill_exactly_what_fits {shared : Shared} (hs : shared.Reached) (getter : Getter)
    (h : Handle) (target : Target) :
    ∃ made, (getter.call h target).run shared = (.delivery made, shared) ∧
      getter.Obeys h shared target made ∧
      ∀ stored, shared.store.object h = .ok stored →
        Getter.Stored stored getter (getter.item h shared.store) := by
  obtain ⟨made, hrun, hmade⟩ := getter.outcome_run shared h target
  refine ⟨made, hrun, hmade.obeys, ?_⟩
  intro stored hstored
  obtain ⟨allotted, hsound⟩ := hs.sound
  have hreadable := hsound.readable h stored (Store.object_eq_ok_iff.1 hstored)
  exact Getter.stored_item hstored hreadable getter

/-- The interface of a command is called for with memory that has no room for the terminator, and
then with one byte more. -/
theorem getters_fill_exactly_what_fits_interface :
    let creation : Call := .newCommand (some (Utf8.bytes "lamp")) (some (Utf8.bytes "switch")) true
    let shared := (creation.run (.ofStore .empty)).2
    ∃ made,
      (Getter.interface.call 1 ⟨.bytes (.zeros 4), true⟩).run shared = (.delivery made, shared) ∧
      made.length = some 4 ∧ made.memory = .bytes (.zeros 4) ∧
      ((Getter.interface.call 1 ⟨.bytes (.zeros 5), true⟩).run shared).1.status = .ok := by
  intro creation shared
  have hs : shared.Reached := .call Shared.reached_empty creation
  obtain ⟨made, hrun, hobeys, -⟩ :=
    getters_fill_exactly_what_fits hs .interface 1 ⟨.bytes (.zeros 4), true⟩
  have hstatus : ((Getter.interface.call 1 ⟨.bytes (.zeros 4), true⟩).run shared).1.status =
      .bufferTooSmall := by
    decide +kernel
  have hlamp : (Getter.interface.item 1 shared.store).toOption = some (Utf8.bytes "lamp") := by
    decide +kernel
  rw [hrun] at hstatus
  obtain ⟨item, hitem, hlength, hmemory⟩ := hobeys.tooSmall hstatus
  rw [hitem] at hlamp
  cases hlamp
  exact ⟨made, hrun, hlength, hmemory, (hobeys.retried _ hlength _).2 ⟨rfl, by decide⟩⟩

end Parcel
