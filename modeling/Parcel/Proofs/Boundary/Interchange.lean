import Parcel.Proofs.Boundary.Calls
import Parcel.Proofs.Boundary.History
import Parcel.Proofs.Exchange.Refusal
import Parcel.Proofs.Exchange.RoundTrip
import Parcel.Proofs.Payload.Insertion
import Parcel.Proofs.Text.Utf8

/-!
# Objects made inside and outside

An object gets into the shared store in a conversation from inside, or by calls from outside that
make an empty object, set its metadata and add its arguments. Both ways leave the same store behind,
and give out the same handle. Whichever way it was, the object can be looked at from outside, where
each call reports its own part, and read back inside as a whole.

## Main definitions

* `Shared.answers`: calls one after the other
* `Object.Creation`: the calls that make an empty object
* `Object.filling`: the calls that fill it
* `Shared.Reports`: what calls report about a handle

## Main results

* `reports_stored`: what is stored for an object is reported
* `answers_filling`: the calls that fill an object store what a transfer stores
* `reports_of_put`, `not_made`: what was made inside is reported, and when nothing is made
* `made_inside_or_outside`: both ways compared, in every shared store
* `no_room_when_poisoned_or_exhausted`: stores in which neither way gives a handle
-/

namespace Parcel

open Json

/-! ## Terminated texts -/

/-- The first terminator ends what stands in front of it. -/
theorem takeWhile_terminated {b : Bytes} (hb : terminator ∉ b) (rest : Bytes) :
    (b ++ terminator :: rest).takeWhile (· ≠ terminator) = b := by
  have hne : ∀ byte ∈ b, decide (byte ≠ terminator) = true :=
    fun byte hbyte => decide_eq_true (ne_of_mem_of_not_mem hbyte hb)
  rw [List.takeWhile_append_of_pos hne]
  simp

/-- What is read ends at the first terminator. -/
theorem readText?_terminated {b : Bytes} (hb : terminator ∉ b) (rest : Bytes) :
    readText? (some (b ++ terminator :: rest)) = some (Utf8.lossy b) := by
  rw [readText?, Option.map_some, takeWhile_terminated hb]

theorem readText?_bytes {text : String} (htext : ∀ c ∈ text.toList, 0 < c.toNat) (rest : Bytes) :
    readText? (some (Utf8.bytes text ++ terminator :: rest)) = some text := by
  have hbytes : terminator ∉ Utf8.bytes text :=
    fun hmem => Utf8.forall_ne_zero htext terminator hmem rfl
  rw [readText?_terminated hbytes, Utf8.lossy_bytes]

/-- An identifier is read from its bytes. -/
theorem Identifier.readText?_text (identifier : Identifier) (rest : Bytes) :
    readText? (some (Utf8.bytes identifier.text ++ terminator :: rest)) = some identifier.text := by
  refine readText?_bytes (fun c hc => ?_) rest
  have hvalid := identifier.isValid
  rw [isIdentifier, Bool.and_eq_true, List.all_eq_true] at hvalid
  -- the zero character is not allowed in identifiers
  refine Nat.pos_of_ne_zero fun hzero => ?_
  have hc' : c = Char.ofNat 0 := by rw [← Char.ofNat_toNat c, hzero]
  have hmark := hvalid.2 c hc
  rw [hc'] at hmark
  exact absurd hmark (by decide)

/-! ## Making an object from outside -/

/-- Calls one after the other, with their answers, and the shared store afterwards. -/
def Shared.answers (shared : Shared) : List Call → List Answer × Shared
  | [] => ([], shared)
  | call :: rest =>
    let (answer, changed) := call.run shared
    let (later, final) := changed.answers rest
    (answer :: later, final)

namespace Object

/-- **The calls that make an empty object** of the same kind and with the same names, which are
given as terminated texts. -/
inductive Creation : Object → Call → Prop
  | data {p : Payload} : Creation (.data p) (.newData true)
  | command {c : Command} (behind behind' : Bytes) : Creation (.command c)
      (.newCommand (some (Utf8.bytes c.interface.text ++ terminator :: behind))
        (some (Utf8.bytes c.operation.text ++ terminator :: behind')) true)

/-- The calls that fill an empty object: its metadata is set, and its arguments are added in
order. -/
def filling (h : Handle) (blob : Memory) (inputs : List Memory) : List Call :=
  .setEncoded h blob :: inputs.map (.push h)

variable {o : Object} {call : Call} {s : Store} {h : Handle} {old : StoredObject}

/-- A new handle is given out as it is for a transfer. -/
theorem Creation.run (hcall : o.Creation call) (s : Store) :
    call.run (.ofStore s) = Call.allotted s (s.insert (.empty o.nameTexts)) := by
  cases hcall with
  | data => exact Call.run_newData s
  | @command c behind behind' =>
    rw [Call.run_newCommand (c.interface.readText?_text behind)
      (c.operation.readText?_text behind'), insertCommand_eq]

/-- Arguments that are added by calls are added in order. -/
theorem answers_push (hlive : s.object h = .ok old) (stored : StoredObject) {args : List Bytes}
    {inputs : List Memory} (hinputs : inputs.map Memory.contents? = args.map some) :
    (Shared.ofStore (s.withObject h stored)).answers (inputs.map (.push h)) =
      (List.replicate args.length (.plain .ok),
        .ofStore (s.withObject h { stored with args := stored.args ++ args })) := by
  -- each call finds the object that the one before it left behind
  induction args generalizing inputs stored with
  | nil =>
    rw [List.map_nil, List.map_eq_nil_iff] at hinputs
    rw [hinputs, List.append_nil]
    rfl
  | cons arg args ih =>
    obtain _ | ⟨input, inputs⟩ := inputs
    · contradiction
    · rw [List.map_cons, List.map_cons, List.cons.injEq] at hinputs
      have hpush := Call.run_push (object_withObject_self hlive stored) hinputs.1
      rw [Store.withObject_withObject] at hpush
      rw [List.map_cons, Shared.answers, hpush]
      dsimp only
      rw [ih _ hinputs.2, List.append_assoc, List.singleton_append]
      rfl

/-- **The calls that fill an empty object** succeed, and what is stored then is what a transfer
stores. -/
theorem answers_filling (hp : o.payload.Lawful)
    (haddressable : Addressable (.object o.payload.metadata)) {blob : Memory}
    {inputs : List Memory} (hempty : s.object h = .ok (.empty o.nameTexts))
    (hblob : blob.contents? = some (Entries.encode o.payload.metadata))
    (hinputs : inputs.map Memory.contents? = o.payload.args.map some) :
    (Shared.ofStore s).answers (filling h blob inputs) =
      (List.replicate (o.payload.args.length + 1) (.plain .ok),
        .ofStore (s.withObject h (o.stored none))) := by
  -- bytes of lawful metadata decode, so they are stored as they came in
  have hdecode := Entries.decode_encode hp.proper haddressable hp.check
  rw [filling, Shared.answers, Call.run_setEncoded hempty hblob,
    StoredObject.replaceMetadata_of_decode hdecode]
  dsimp only [Effect.apply]
  rw [answers_push hempty _ hinputs]
  simp [StoredObject.empty, stored, List.replicate_succ]

end Object

/-! ## Looking at an object from outside -/

/-- **What calls report about a handle** under which there is the given object: nothing but its
kind, its arguments, its metadata and its names, each delivered to whatever memory there is for
it. -/
structure Shared.Reports (shared : Shared) (h : Handle) (o : Object) : Prop where
  kind : (Call.kind h true).run shared = (.kind .ok (some o.kind), shared)
  argCount : (Call.argCount h true).run shared =
    (.number .ok (some o.payload.args.length), shared)
  arg : ∀ index target, (Call.getArg h index target).run shared =
    (.delivery (match o.payload.args[index]? with
      | some arg => target.deliverBytes arg
      | none => target.refuse .indexOutOfRange), shared)
  encoded : ∀ target, (Call.getEncoded h target).run shared =
    (.delivery (target.deliverBytes (Entries.encode o.payload.metadata)), shared)
  text : ∃ m, Entries.decode (Entries.encode o.payload.metadata) = .ok m ∧
    ∀ target, (Call.getText h target).run shared =
      (.delivery (target.deliverText m.toText), shared)
  interface : ∀ target, (Call.getInterface h target).run shared =
    (.delivery (match o.names? with
      | some (interface, _) => target.deliverText interface.text
      | none => target.refuse .handleMismatch), shared)
  operation : ∀ target, (Call.getOperation h target).run shared =
    (.delivery (match o.names? with
      | some (_, operation) => target.deliverText operation.text
      | none => target.refuse .handleMismatch), shared)

variable {o : Object} {shared : Shared} {s : Store} {h : Handle}

/-- **What is stored for an object is reported.** -/
theorem reports_stored (hp : o.payload.Lawful)
    (haddressable : Addressable (.object o.payload.metadata))
    (hstored : s.object h = .ok (o.stored none)) : (Shared.ofStore s).Reports h o where
  kind := by
    rw [Call.run_kind hstored]
    cases o <;> rfl
  argCount := Call.run_argCount hstored
  arg index target := Call.run_getArg hstored index target
  encoded target := Call.run_getEncoded hstored target
  text := by
    have hdecode := Entries.decode_encode hp.proper haddressable hp.check
    refine ⟨_, hdecode, fun target => ?_⟩
    rw [Call.run_getText hstored, Object.stored, hdecode]
  interface target := by
    rw [Call.run_getInterface hstored]
    cases o <;> rfl
  operation target := by
    rw [Call.run_getOperation hstored]
    cases o <;> rfl

/-! ## Inside and outside -/

/-- What is stored for an object is read back inside as an equal object. -/
theorem exists_fetch_object (hp : o.payload.Lawful)
    (haddressable : Addressable (.object o.payload.metadata))
    (hstored : s.object h = .ok (o.stored none)) : ∃ read : Object, read.same o = true ∧
      ∀ capacity, (Object.fetch capacity h).outcome s = (.ok read, s) := by
  cases o with
  | data p =>
    have hsame : (Object.data p).readBack.same p = true := Object.same_readBack hp
    refine ⟨.data (Object.data p).readBack, by simpa [Object.same] using hsame, fun capacity => ?_⟩
    have hpayload := Object.payload_stored (o := .data p) hp haddressable none
    rw [Object.fetch_store hstored, StoredObject.object, hpayload]
    rfl
  | command c => exact (exists_fetch_command hp haddressable rfl hstored).2

/-- **An object that gets a handle** gets the same one inside and outside, and is the same then. -/
theorem made_of_insert {s₁ : Store} (hs : s.objects.WellFormed) (hp : o.payload.Lawful)
    (haddressable : Addressable (.object o.payload.metadata))
    (hi : s.insert (.empty o.nameTexts) = .ok (h, s₁)) :
    ∃ shared', (Shared.ofStore s).withStore (o.put none) = (some (.ok h), shared') ∧
      shared'.Reports h o ∧
      (∀ call, o.Creation call →
        call.run (.ofStore s) = (.handle .ok (some h), .ofStore s₁)) ∧
      (∀ blob inputs, blob.contents? = some (Entries.encode o.payload.metadata) →
        inputs.map Memory.contents? = o.payload.args.map some →
        (Shared.ofStore s₁).answers (Object.filling h blob inputs) =
          (List.replicate (o.payload.args.length + 1) (.plain .ok), shared')) ∧
      ∃ read : Object, read.same o = true ∧
        ∀ capacity, shared'.withStore (Object.fetch capacity h) = (some (.ok read), shared') := by
  -- a transfer starts with the same new handle as the calls do
  have hempty := (Store.object_insert hs hi).2 h
  rw [if_pos rfl] at hempty
  have hstored := object_withObject_self hempty (o.stored none)
  refine ⟨.ofStore (s₁.withObject h (o.stored none)), ?_, reports_stored hp haddressable hstored,
    fun call hcall => ?_, fun blob inputs hblob hinputs => ?_, ?_⟩
  · rw [Shared.withStore_ofStore, Object.put_new hs hp haddressable hi]
  · rw [hcall.run, hi]
    rfl
  · exact Object.answers_filling hp haddressable hempty hblob hinputs
  · obtain ⟨read, hsame, hfetch⟩ := exists_fetch_object hp haddressable hstored
    refine ⟨read, hsame, fun capacity => ?_⟩
    rw [Shared.withStore_ofStore, hfetch]

/-- **An object that gets no handle** gets none inside and none outside. -/
theorem made_of_refused {error : Error} (hi : s.insert (.empty o.nameTexts) = .error error) :
    (Shared.ofStore s).withStore (o.put none) = (some (.error error), .ofStore s) ∧
      ∀ call, o.Creation call →
        call.run (.ofStore s) = (.handle (.ofError error) none, .ofStore s) := by
  constructor
  · rw [Shared.withStore_ofStore, Object.put_refused hi]
  · intro call hcall
    rw [hcall.run, hi]
    rfl

/-- Nobody gets hold of a poisoned store. -/
theorem made_of_poisoned (hdead : shared.poisoned = true) :
    shared.withStore (o.put none) = (none, shared) ∧
      ∀ call, o.Creation call → call.run shared = (.handle .internalError none, shared) := by
  have hput : shared.withStore (o.put none) = (none, shared) := by
    rw [Shared.withStore, if_pos hdead]
  refine ⟨hput, fun call hcall => ?_⟩
  -- the names are read, but no request gets through
  cases hcall with
  | data => rw [Call.run, Shared.request_poisoned hdead]
  | @command c behind behind' =>
    rw [Call.run, c.interface.readText?_text, c.operation.readText?_text]
    dsimp only
    rw [Shared.request_poisoned hdead]

/-- **What was made inside is reported outside.** Whoever got a handle found the store neither
poisoned nor full. -/
theorem reports_of_put {shared' : Shared} (hs : shared.store.objects.WellFormed)
    (hp : o.payload.Lawful) (haddressable : Addressable (.object o.payload.metadata))
    (hput : shared.withStore (o.put none) = (some (.ok h), shared')) : shared'.Reports h o := by
  cases hpoisoned : shared.poisoned with
  | true => simp [(made_of_poisoned hpoisoned).1] at hput
  | false =>
    rw [Shared.eq_ofStore hpoisoned] at hput
    cases hi : shared.store.insert (.empty o.nameTexts) with
    | error error => simp [(made_of_refused hi).1] at hput
    | ok found =>
      obtain ⟨shared₁, hput₁, hreports, -⟩ := made_of_insert hs hp haddressable hi
      cases hput₁.symm.trans hput
      exact hreports

/-- **Nothing is made** in a store that is poisoned or has no handle to give out. -/
theorem not_made (hrefused : shared.poisoned = true ∨
      ∃ error, shared.store.insert (.empty o.nameTexts) = .error error) :
    (∀ h shared', shared.withStore (o.put none) ≠ (some (.ok h), shared')) ∧
      (shared.withStore (o.put none)).2 = shared ∧
      ∀ call, o.Creation call → ∃ status, status ≠ .ok ∧
        call.run shared = (.handle status none, shared) := by
  -- a store can be full and poisoned, and is not asked for a handle then
  cases hpoisoned : shared.poisoned with
  | true =>
    obtain ⟨hput, hcalls⟩ := made_of_poisoned (o := o) hpoisoned
    rw [hput]
    exact ⟨by simp, rfl, fun call hcall => ⟨_, by decide, hcalls call hcall⟩⟩
  | false =>
    obtain ⟨error, hi⟩ := hrefused.resolve_left (by simp [hpoisoned])
    rw [Shared.eq_ofStore hpoisoned]
    obtain ⟨hput, hcalls⟩ := made_of_refused (o := o) hi
    rw [hput]
    exact ⟨by simp, rfl, fun call hcall => ⟨_, Status.ofError_ne_ok error, hcalls call hcall⟩⟩

/-- **Objects made inside and outside are the same.** In every shared store that callers can lead
to, an object that can be built gets a handle inside exactly if it gets one outside, which is if the
store is neither poisoned nor full; otherwise nothing changes. The handle is the same. After the
transfer from inside, calls from outside report the object under it. After the object was made
outside, all of whose calls succeed, the shared store is the one that the transfer leaves behind,
and the object is read back inside as an equal one. Lengths fit 64 bits, as in memory. -/
theorem made_inside_or_outside (hs : shared.Reached) (ho : o.Built)
    (haddressable : Addressable (.object o.payload.metadata)) :
    (∀ h shared', shared.withStore (o.put none) = (some (.ok h), shared') →
      shared'.Reports h o) ∧
    (shared.poisoned = false → (∀ error, ¬ shared.store.Full error) →
      ∃ h shared', shared.withStore (o.put none) = (some (.ok h), shared') ∧
        (∀ call, o.Creation call → ∃ created,
          call.run shared = (.handle .ok (some h), created) ∧
          ∀ blob inputs, blob.contents? = some (Entries.encode o.payload.metadata) →
            inputs.map Memory.contents? = o.payload.args.map some →
            created.answers (Object.filling h blob inputs) =
              (List.replicate (o.payload.args.length + 1) (.plain .ok), shared')) ∧
        ∃ read : Object, read.same o = true ∧
          ∀ capacity, shared'.withStore (Object.fetch capacity h) = (some (.ok read), shared')) ∧
    (shared.poisoned = true ∨ (∃ error, shared.store.Full error) →
      (∀ h shared', shared.withStore (o.put none) ≠ (some (.ok h), shared')) ∧
      (shared.withStore (o.put none)).2 = shared ∧
      ∀ call, o.Creation call → ∃ status, status ≠ .ok ∧
        call.run shared = (.handle status none, shared)) := by
  -- the store has a history of requests, so it refuses an object exactly if it is full
  obtain ⟨limit, s₀, requests, hlimit, hstore⟩ := hs.exists_run
  have hwf : shared.store.objects.WellFormed :=
    hstore ▸ (Store.sound_run hlimit requests).advance.wellFormed
  have hsize : shared.store.size = shared.store.liveHandles.length :=
    hstore ▸ Store.size_eq_length_liveHandles hlimit requests
  have hfull (error : Error) : shared.store.insert (.empty o.nameTexts) = .error error ↔
      shared.store.Full error := Store.insert_eq_error_iff hwf hsize
  have hp := ho.lawful
  refine ⟨fun h shared' => reports_of_put hwf hp haddressable, fun hlive hroom => ?_,
    fun hrefused => not_made (hrefused.imp_right fun ⟨error, herror⟩ =>
      ⟨error, (hfull error).2 herror⟩)⟩
  cases hi : shared.store.insert (.empty o.nameTexts) with
  | error error => exact absurd ((hfull error).1 hi) (hroom error)
  | ok found =>
    obtain ⟨shared', hput, -, hcreated, hfilled, hread⟩ := made_of_insert hwf hp haddressable hi
    rw [Shared.eq_ofStore hlive]
    exact ⟨_, shared', hput, fun call hcall => ⟨_, hcreated call hcall, hfilled⟩, hread⟩

/-- A command with two arguments, one of them empty, in a store where data was made before. -/
theorem made_inside_or_outside_command :
    let shared := ((Call.newData true).run (.ofStore .empty)).2
    let o : Object := .command ⟨⟨"lamp", by decide⟩, ⟨"switch", by decide⟩,
      ⟨[[7], []], [("level", .integer 3)]⟩⟩
    shared.Reached ∧ o.Built ∧ Addressable (.object o.payload.metadata) ∧
      shared.poisoned = false ∧ (∀ error, ¬ shared.store.Full error) ∧
      ∃ h shared', shared.withStore (o.put none) = (some (.ok h), shared') ∧
        shared'.Reports h o := by
  intro shared o
  have hs : shared.Reached := .call Shared.reached_empty (.newData true)
  have ho : o.Built := Payload.Lawful.built (by decide)
  have haddressable : Addressable (.object o.payload.metadata) := by decide
  have hroom : ∀ error, ¬ shared.store.Full error := Store.not_full_of_lt rfl (by decide)
  obtain ⟨hreports, hmade, -⟩ := made_inside_or_outside hs ho haddressable
  obtain ⟨h, shared', hput, -⟩ := hmade rfl hroom
  exact ⟨hs, ho, haddressable, rfl, hroom, h, shared', hput, hreports h shared' hput⟩

/-! ## Stores without room -/

theorem Shared.Reached.answers (hs : shared.Reached) (calls : List Call) :
    (shared.answers calls).2.Reached := by
  induction calls generalizing shared with
  | nil => exact hs
  | cons call rest ih => exact ih (hs.call call)

/-- Data that is made in a store without a bound takes slots of its own until all slots exist. -/
theorem exists_answers_newData {n : Nat} (hlimit : s.limit = none) (hfree : s.objects.free = [])
    (hn : s.objects.slots.size + n ≤ Table.slotBound) :
    ∃ s' : Store, ((Shared.ofStore s).answers (List.replicate n (.newData true))).2 = .ofStore s' ∧
      s'.limit = none ∧ s'.objects.free = [] ∧
      s'.objects.slots.size = s.objects.slots.size + n := by
  -- no slot is ever emptied, so each new object takes the next one
  induction n generalizing s with
  | zero => exact ⟨s, rfl, hlimit, hfree, rfl⟩
  | succ n ih =>
    have hroom : s.objects.slots.size < Table.slotBound := by omega
    obtain ⟨k, s₁, hinsert, hlimit₁, hfree₁, hsize₁⟩ : ∃ k s₁,
        s.insert (.empty none) = .ok (k, s₁) ∧ s₁.limit = none ∧ s₁.objects.free = [] ∧
          s₁.objects.slots.size = s.objects.slots.size + 1 := by
      rw [Store.insert_of_checkRoom (Store.checkRoom_of_none hlimit)]
      simp only [Table.insert, hfree, if_pos hroom]
      exact ⟨_, _, rfl, hlimit, rfl, Array.size_push _⟩
    obtain ⟨s', hanswers, hlimit', hfree', hsize'⟩ := ih hlimit₁ hfree₁ (by omega)
    rw [List.replicate_succ, Shared.answers, Call.run_newData, hinsert]
    exact ⟨s', hanswers, hlimit', hfree', by omega⟩

/-- **Not every store has room for an object**: data is refused after a caller died, and in a store
without a bound after as much data was made as there are slots. -/
theorem no_room_when_poisoned_or_exhausted :
    let o : Object := .data ⟨[], []⟩
    let poisoned := (Shared.ofStore .empty).poison.2
    let exhausted := ((Shared.ofStore .empty).answers
      (List.replicate Table.slotBound (.newData true))).2
    o.Built ∧ Addressable (.object o.payload.metadata) ∧ o.Creation (.newData true) ∧
      poisoned.Reached ∧
      (Call.newData true).run poisoned = (.handle .internalError none, poisoned) ∧
      exhausted.Reached ∧
      (Call.newData true).run exhausted = (.handle .allocationFailed none, exhausted) := by
  intro o poisoned exhausted
  have ho : o.Built := Payload.Lawful.built (by decide)
  have haddressable : Addressable (.object o.payload.metadata) := by decide
  refine ⟨ho, haddressable, .data, .poison Shared.reached_empty, rfl,
    Shared.reached_empty.answers _, ?_⟩
  -- the calls are too many to be run one by one, so the store behind them is described
  obtain ⟨s, hanswers, hlimit, hfree, hsize⟩ := exists_answers_newData (s := .empty)
    (n := Table.slotBound) rfl rfl (Nat.le_of_eq (Nat.zero_add _))
  have hslots : s.objects.slots.size = Table.slotBound := hsize.trans (Nat.zero_add _)
  have hinsert : s.insert (.empty none) =
      .error (.allocationFailed "handle slot space exhausted") := by
    rw [Store.insert_of_checkRoom (Store.checkRoom_of_none hlimit)]
    simp [Table.insert, hfree, hslots]
  have hexhausted : exhausted = .ofStore s := hanswers
  rw [hexhausted, Call.run_newData, hinsert]
  rfl

end Parcel
