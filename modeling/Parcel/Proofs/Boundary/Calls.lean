import Parcel.Boundary
import Parcel.Proofs.Exchange.Put
import Parcel.Proofs.Store.Dead

/-!
# Calls at the boundary

A call is about one handle, or asks for a new one. A call about a handle looks at the object of this
handle only, and at most replaces or deletes this object, so its answer can be read off the object.
A call for a new handle is refused for what its caller passed, or stores an object without content.

## Main definitions

* `Call.handle?`: the handle that a call is about
* `StoredObject.listing`: the lines of a dump behind the first
* `Effect`, `Call.reply`: what a call does to the object of a live handle, and its answer

## Main results

* `run_live`: every call about a live handle answers and does what can be told from the object
* `run_dead`: every call about a handle that is not live changes nothing
* `run_about`, `Effect.get?_apply_of_ne`: a call about a handle does nothing to other handles
* `run_new`: what a call for a new handle does
-/

namespace Parcel

/-- The status of a result. -/
def Status.ofResult {α : Type} : Except Error α → Status
  | .ok _ => .ok
  | .error error => .ofError error

/-- The status that comes with an answer. -/
def Answer.status : Answer → Status
  | .plain status => status
  | .handle status _ => status
  | .kind status _ => status
  | .number status _ => status
  | .delivery made => made.status

/-- The handle that an answer brings. -/
def Answer.issued : Answer → Option Handle
  | .handle _ written => written
  | _ => none

/-! ## Access to the shared store -/

namespace Shared

variable {α : Type} {shared : Shared} {s : Store} {h : Handle}

theorem eq_ofStore (hlive : shared.poisoned = false) : shared = .ofStore shared.store := by
  cases shared
  simpa [ofStore] using hlive

theorem withStore_ofStore (session : Session Store α) :
    (ofStore s).withStore session =
      (some (session.outcome s).1, ofStore (session.outcome s).2) := rfl

theorem request_ofStore (session : Session Store α) :
    (ofStore s).request true session =
      ((.ofResult (session.outcome s).1, (session.outcome s).1.toOption),
        ofStore (session.outcome s).2) := by
  rw [request, withStore_ofStore]
  obtain ⟨_ | answer, s'⟩ := session.outcome s
  · rfl
  · rfl

/-- Nobody gets hold of a poisoned store. -/
theorem request_poisoned (hdead : shared.poisoned = true) (session : Session Store α) :
    shared.request true session = ((.internalError, none), shared) := by
  rw [request, withStore, if_pos hdead]
  rfl

theorem command_ofStore (session : Session Store Unit) :
    (ofStore s).command session =
      (.plain (.ofResult (session.outcome s).1), ofStore (session.outcome s).2) := by
  rw [command, request_ofStore]

/-- A request about a dead handle is refused. -/
theorem request_dead {session : Session Store α}
    (hsession : session.outcome s = (.error (.handleNotFound h), s)) :
    (ofStore s).request true session = ((.invalidHandle, none), ofStore s) := by
  rw [request_ofStore, hsession]
  rfl

theorem command_dead {session : Session Store Unit}
    (hsession : session.outcome s = (.error (.handleNotFound h), s)) :
    (ofStore s).command session = (.plain .invalidHandle, ofStore s) := by
  rw [command, request_dead hsession]

theorem deliver_ofStore (target : Target) (item : Store → Except Error α)
    (delivery : α → Delivery) :
    (ofStore s).deliver target item delivery =
      (.delivery (match item s with
        | .error error => target.refuse (.ofError error)
        | .ok found => delivery found), ofStore s) := by
  simp only [deliver, ofStore, Bool.false_eq_true, if_false]
  cases item s <;> rfl

/-- Nothing of a dead handle is delivered. -/
theorem deliver_dead {target : Target} {item : Store → Except Error α} {delivery : α → Delivery}
    (hitem : item s = .error (.handleNotFound h)) :
    (ofStore s).deliver target item delivery =
      (.delivery (target.refuse .invalidHandle), ofStore s) := by
  rw [deliver_ofStore, hitem]
  rfl

/-- Only commands have names to deliver. -/
theorem deliver_names {stored : StoredObject} (hstored : s.object h = .ok stored)
    (part : String × String → String) (target : Target) :
    (ofStore s).deliver target (fun store => (store.names h).map part) target.deliverText =
      (.delivery (match stored.names with
        | none => target.refuse .handleMismatch
        | some names => target.deliverText (part names)), ofStore s) := by
  rw [deliver_ofStore, Store.names, hstored]
  dsimp only
  cases stored.names <;> rfl

end Shared

/-! ## Dumps -/

/-- The first line of a dump. -/
def Kind.headline (kind : Kind) (h : Handle) : String :=
  kind.name ++ " handle " ++ h.text ++ "\n"

/-- The lines of a dump behind the first. -/
def StoredObject.listing (object : StoredObject) (m : Entries) : String :=
  Store.nameLines object.names ++ "  metadata: " ++ m.toText ++ "\n" ++ "  args: " ++
    toString object.args.length ++ "\n" ++ Store.argLines object.args

/-! ## Effects on a handle -/

/-- What a call does to the object of the handle that it is about. -/
inductive Effect
  | keep
  | replace (object : StoredObject)
  | delete

/-- The object afterwards. -/
def Effect.result (stored : StoredObject) : Effect → Option StoredObject
  | .keep => some stored
  | .replace object => some object
  | .delete => none

/-- The store afterwards. -/
def Effect.apply (s : Store) (h : Handle) : Effect → Store
  | .keep => s
  | .replace object => s.withObject h object
  | .delete => (s.delete h).toOption.getD s

/-- Bytes are stored as metadata if they can be decoded. -/
def StoredObject.replaceMetadata (stored : StoredObject) (blob : Bytes) : Answer × Effect :=
  match Entries.decode blob with
  | .error error => (.plain (.ofError error), .keep)
  | .ok _ => (.plain .ok, .replace { stored with metadata := blob })

theorem StoredObject.replaceMetadata_of_decode {stored : StoredObject} {blob : Bytes} {m : Entries}
    (hdecode : Entries.decode blob = .ok m) :
    stored.replaceMetadata blob = (.plain .ok, .replace { stored with metadata := blob }) := by
  rw [replaceMetadata, hdecode]

namespace Effect

variable {s : Store} {h k : Handle} {stored : StoredObject}

/-- **The frame of a call**: the objects of all other handles stay. -/
theorem get?_apply_of_ne (effect : Effect) (hk : k ≠ h) :
    (effect.apply s h).objects.get? k = s.objects.get? k := by
  cases effect with
  | keep => rfl
  | replace object => rw [apply, Store.withObject, Table.get?_update, if_neg hk]
  | delete =>
    rw [apply]
    cases hdelete : s.delete h with
    | error error => rfl
    | ok s' =>
      rw [Except.toOption, Option.getD_some, Store.get?_delete hdelete, if_neg hk]

theorem get?_apply_self (effect : Effect) (hstored : s.object h = .ok stored) :
    (effect.apply s h).objects.get? h = effect.result stored := by
  cases effect with
  | keep => exact Store.object_eq_ok_iff.1 hstored
  | replace object => exact Store.object_eq_ok_iff.1 (object_withObject_self hstored object)
  | delete =>
    obtain ⟨s', hdelete⟩ := Store.exists_delete hstored
    rw [apply, hdelete, Except.toOption, Option.getD_some, Store.get?_delete hdelete, if_pos rfl]
    rfl

end Effect

/-- The answer to a call about a live handle, and what it does to the handle's object. -/
def Call.reply (call : Call) (h : Handle) (stored : StoredObject) : Answer × Effect :=
  match call with
  | .delete _ => (.plain .ok, .delete)
  | .clear _ => (.plain .ok, .replace (.empty stored.names))
  | .kind _ hasPlace =>
    (if hasPlace then .kind .ok (some stored.kind) else .kind .invalidArgument none, .keep)
  | .argCount _ hasPlace =>
    (if hasPlace then .number .ok (some stored.args.length)
      else .number .invalidArgument none, .keep)
  | .setEncoded _ input =>
    match input.contents? with
    | none => (.plain .invalidArgument, .keep)
    | some blob => stored.replaceMetadata blob
  | .setText _ input =>
    match readText? input with
    | none => (.plain .invalidArgument, .keep)
    | some text =>
      match encodeText text with
      | .error error => (.plain (.ofError error), .keep)
      | .ok blob => stored.replaceMetadata blob
  | .push _ input =>
    match input.contents? with
    | none => (.plain .invalidBinaryArgument, .keep)
    | some arg => (.plain .ok, .replace { stored with args := stored.args ++ [arg] })
  | .getEncoded _ target => (.delivery (target.deliverBytes stored.metadata), .keep)
  | .getText _ target =>
    (.delivery (match Entries.decode stored.metadata with
      | .error error => target.refuse (.ofError error)
      | .ok m => target.deliverText m.toText), .keep)
  | .getArg _ index target =>
    (.delivery (match stored.args[index]? with
      | some arg => target.deliverBytes arg
      | none => target.refuse .indexOutOfRange), .keep)
  | .getInterface _ target =>
    (.delivery (match stored.names with
      | none => target.refuse .handleMismatch
      | some names => target.deliverText names.1), .keep)
  | .getOperation _ target =>
    (.delivery (match stored.names with
      | none => target.refuse .handleMismatch
      | some names => target.deliverText names.2), .keep)
  | .dump _ target =>
    (.delivery (match Entries.decode stored.metadata with
      | .error error => target.refuse (.ofError error)
      | .ok m => target.deliverText (stored.kind.headline h ++ stored.listing m)), .keep)
  | _ => (.plain .invalidHandle, .keep)

namespace Call

variable {call : Call} {s s' : Store} {h k : Handle} {stored : StoredObject} {m : Entries}

/-- The handle that a call is about. -/
def handle? : Call → Option Handle
  | .newData _ => none
  | .newCommand _ _ _ => none
  | .delete h => some h
  | .clear h => some h
  | .kind h _ => some h
  | .argCount h _ => some h
  | .setEncoded h _ => some h
  | .setText h _ => some h
  | .push h _ => some h
  | .getEncoded h _ => some h
  | .getText h _ => some h
  | .getArg h _ _ => some h
  | .getInterface h _ => some h
  | .getOperation h _ => some h
  | .dump h _ => some h

/-! ## Calls about a live handle -/

theorem run_delete (hstored : s.object h = .ok stored) :
    (Call.delete h).run (.ofStore s) = (.plain .ok, .ofStore (Effect.delete.apply s h)) := by
  obtain ⟨s', hdelete⟩ := Store.exists_delete hstored
  rw [run, Shared.command_ofStore, outcome_ask_store, Store.perform_delete, Effect.apply, hdelete]
  rfl

theorem run_clear (hstored : s.object h = .ok stored) :
    (Call.clear h).run (.ofStore s) =
      (.plain .ok, .ofStore (s.withObject h (.empty stored.names))) := by
  rw [run, Shared.command_ofStore, outcome_ask_clear hstored]
  rfl

theorem run_kind (hstored : s.object h = .ok stored) :
    (Call.kind h true).run (.ofStore s) = (.kind .ok (some stored.kind), .ofStore s) := by
  rw [run, Shared.request_ofStore, outcome_ask_kind hstored]
  rfl

theorem run_argCount (hstored : s.object h = .ok stored) :
    (Call.argCount h true).run (.ofStore s) =
      (.number .ok (some stored.args.length), .ofStore s) := by
  rw [run, Shared.request_ofStore, outcome_ask_argCount hstored]
  rfl

/-- The request behind both ways to set metadata. -/
theorem outcome_ask_setMetadata_eq (hstored : s.object h = .ok stored) (blob : Bytes) :
    (ask (.setMetadata h blob) : Session Store Unit).outcome s =
      match Entries.decode blob with
      | .error error => (.error error, s)
      | .ok _ => (.ok (), s.withObject h { stored with metadata := blob }) := by
  rw [outcome_ask_store, Store.perform_setMetadata, Store.setMetadata, hstored]
  dsimp only
  cases Entries.decode blob <;> rfl

theorem run_setEncoded (hstored : s.object h = .ok stored) {input : Memory} {blob : Bytes}
    (hinput : input.contents? = some blob) :
    (Call.setEncoded h input).run (.ofStore s) = ((stored.replaceMetadata blob).1,
      .ofStore ((stored.replaceMetadata blob).2.apply s h)) := by
  rw [run, hinput]
  dsimp only
  rw [Shared.command_ofStore, outcome_ask_setMetadata_eq hstored, StoredObject.replaceMetadata]
  cases Entries.decode blob <;> rfl

theorem run_setText (hstored : s.object h = .ok stored) {input : Option Bytes} {text : String}
    {blob : Bytes} (hinput : readText? input = some text) (hblob : encodeText text = .ok blob) :
    (Call.setText h input).run (.ofStore s) = ((stored.replaceMetadata blob).1,
      .ofStore ((stored.replaceMetadata blob).2.apply s h)) := by
  rw [run, hinput]
  dsimp only
  rw [hblob]
  dsimp only
  rw [Shared.command_ofStore, outcome_ask_setMetadata_eq hstored, StoredObject.replaceMetadata]
  cases Entries.decode blob <;> rfl

theorem run_push (hstored : s.object h = .ok stored) {input : Memory} {arg : Bytes}
    (hinput : input.contents? = some arg) :
    (Call.push h input).run (.ofStore s) =
      (.plain .ok, .ofStore (s.withObject h { stored with args := stored.args ++ [arg] })) := by
  rw [run, hinput]
  dsimp only
  rw [Shared.command_ofStore, outcome_ask_push hstored]
  rfl

theorem run_getEncoded (hstored : s.object h = .ok stored) (target : Target) :
    (Call.getEncoded h target).run (.ofStore s) =
      (.delivery (target.deliverBytes stored.metadata), .ofStore s) := by
  rw [run, Shared.deliver_ofStore, hstored]
  rfl

theorem run_getText (hstored : s.object h = .ok stored) (target : Target) :
    (Call.getText h target).run (.ofStore s) =
      (.delivery (match Entries.decode stored.metadata with
        | .error error => target.refuse (.ofError error)
        | .ok m => target.deliverText m.toText), .ofStore s) := by
  rw [run, Shared.deliver_ofStore, metadataText, hstored]
  dsimp only
  cases Entries.decode stored.metadata <;> rfl

theorem run_getArg (hstored : s.object h = .ok stored) (index : Nat) (target : Target) :
    (Call.getArg h index target).run (.ofStore s) =
      (.delivery (match stored.args[index]? with
        | some arg => target.deliverBytes arg
        | none => target.refuse .indexOutOfRange), .ofStore s) := by
  rw [run, Shared.deliver_ofStore, hstored]
  rfl

theorem run_getInterface (hstored : s.object h = .ok stored) (target : Target) :
    (Call.getInterface h target).run (.ofStore s) =
      (.delivery (match stored.names with
        | none => target.refuse .handleMismatch
        | some names => target.deliverText names.1), .ofStore s) :=
  Shared.deliver_names hstored Prod.fst target

theorem run_getOperation (hstored : s.object h = .ok stored) (target : Target) :
    (Call.getOperation h target).run (.ofStore s) =
      (.delivery (match stored.names with
        | none => target.refuse .handleMismatch
        | some names => target.deliverText names.2), .ofStore s) :=
  Shared.deliver_names hstored Prod.snd target

theorem run_dump (hstored : s.object h = .ok stored) (target : Target) :
    (Call.dump h target).run (.ofStore s) =
      (.delivery (match Entries.decode stored.metadata with
        | .error error => target.refuse (.ofError error)
        | .ok m => target.deliverText (stored.kind.headline h ++ stored.listing m)),
        .ofStore s) := by
  rw [run, Shared.deliver_ofStore, Store.dump, hstored]
  dsimp only
  cases Entries.decode stored.metadata with
  | error error => rfl
  | ok m => simp only [Kind.headline, StoredObject.listing, String.append_assoc]

/-- **A call about a live handle** answers and does what can be told from the object. -/
theorem run_live (hcall : call.handle? = some h) (hstored : s.object h = .ok stored) :
    call.run (.ofStore s) =
      ((call.reply h stored).1, .ofStore ((call.reply h stored).2.apply s h)) := by
  cases call with
  | newData hasPlace => contradiction
  | newCommand interface operation hasPlace => contradiction
  | delete k =>
    cases hcall
    exact run_delete hstored
  | clear k =>
    cases hcall
    exact run_clear hstored
  | kind k hasPlace =>
    cases hcall
    cases hasPlace with
    | false => rfl
    | true => exact run_kind hstored
  | argCount k hasPlace =>
    cases hcall
    cases hasPlace with
    | false => rfl
    | true => exact run_argCount hstored
  | setEncoded k input =>
    cases hcall
    cases hinput : input.contents? with
    | none => simp only [run, reply, hinput, Effect.apply]
    | some blob => simp only [run_setEncoded hstored hinput, reply, hinput]
  | setText k input =>
    cases hcall
    cases hinput : readText? input with
    | none => simp only [run, reply, hinput, Effect.apply]
    | some text =>
      cases hblob : encodeText text with
      | error error => simp only [run, reply, hinput, hblob, Effect.apply]
      | ok blob => simp only [run_setText hstored hinput hblob, reply, hinput, hblob]
  | push k input =>
    cases hcall
    cases hinput : input.contents? with
    | none => simp only [run, reply, hinput, Effect.apply]
    | some arg => simp only [run_push hstored hinput, reply, hinput, Effect.apply]
  | getEncoded k target =>
    cases hcall
    exact run_getEncoded hstored target
  | getText k target =>
    cases hcall
    exact run_getText hstored target
  | getArg k index target =>
    cases hcall
    exact run_getArg hstored index target
  | getInterface k target =>
    cases hcall
    exact run_getInterface hstored target
  | getOperation k target =>
    cases hcall
    exact run_getOperation hstored target
  | dump k target =>
    cases hcall
    exact run_dump hstored target

/-- No call about a live handle brings one. -/
theorem issued_reply (call : Call) (h : Handle) (stored : StoredObject) :
    (call.reply h stored).1.issued = none := by
  have hreplace (blob : Bytes) : (stored.replaceMetadata blob).1.issued = none := by
    rw [StoredObject.replaceMetadata]
    split <;> rfl
  cases call with
  | kind k hasPlace => cases hasPlace <;> rfl
  | argCount k hasPlace => cases hasPlace <;> rfl
  | setEncoded k input =>
    simp only [reply]
    split
    · rfl
    · exact hreplace _
  | setText k input =>
    simp only [reply]
    split
    · rfl
    · split
      · rfl
      · exact hreplace _
  | push k input =>
    simp only [reply]
    split <;> rfl
  | _ => rfl

/-! ## Calls about any handle -/

/-- The same call about another handle. -/
def about (call : Call) (k : Handle) : Call :=
  match call with
  | .newData hasPlace => .newData hasPlace
  | .newCommand interface operation hasPlace => .newCommand interface operation hasPlace
  | .delete _ => .delete k
  | .clear _ => .clear k
  | .kind _ hasPlace => .kind k hasPlace
  | .argCount _ hasPlace => .argCount k hasPlace
  | .setEncoded _ input => .setEncoded k input
  | .setText _ input => .setText k input
  | .push _ input => .push k input
  | .getEncoded _ target => .getEncoded k target
  | .getText _ target => .getText k target
  | .getArg _ index target => .getArg k index target
  | .getInterface _ target => .getInterface k target
  | .getOperation _ target => .getOperation k target
  | .dump _ target => .dump k target

theorem handle?_about (hcall : call.handle? = some h) : (call.about k).handle? = some k := by
  cases call <;> first | rfl | contradiction

/-- The answer to a call about a handle that is not live. What comes in is checked before the
handle, and so are places for results, but not the memory for a delivery. -/
def missing : Call → Answer
  | .kind _ hasPlace => .kind (if hasPlace then .invalidHandle else .invalidArgument) none
  | .argCount _ hasPlace => .number (if hasPlace then .invalidHandle else .invalidArgument) none
  | .setEncoded _ input =>
    .plain (if input.contents?.isSome then .invalidHandle else .invalidArgument)
  | .setText _ input =>
    .plain (match (readText? input).map encodeText with
      | none => .invalidArgument
      | some (.error error) => .ofError error
      | some (.ok _) => .invalidHandle)
  | .push _ input =>
    .plain (if input.contents?.isSome then .invalidHandle else .invalidBinaryArgument)
  | .getEncoded _ target => .delivery (target.refuse .invalidHandle)
  | .getText _ target => .delivery (target.refuse .invalidHandle)
  | .getArg _ _ target => .delivery (target.refuse .invalidHandle)
  | .getInterface _ target => .delivery (target.refuse .invalidHandle)
  | .getOperation _ target => .delivery (target.refuse .invalidHandle)
  | .dump _ target => .delivery (target.refuse .invalidHandle)
  | _ => .plain .invalidHandle

theorem missing_about (call : Call) (k : Handle) : (call.about k).missing = call.missing := by
  cases call <;> rfl

/-- **A call about a handle that is not live** changes nothing. -/
theorem run_dead (hcall : call.handle? = some h) (hdead : s.objects.get? h = none) :
    call.run (.ofStore s) = (call.missing, .ofStore s) := by
  have hobject : s.object h = .error (.handleNotFound h) := by simp only [Store.object, hdead]
  have hask (request : Request) (hrequest : request.handle? = some h) :
      (ask request : Session Store request.Reply).outcome s = (.error (request.deadError h), s) :=
    Store.perform_of_dead hobject hrequest
  cases call with
  | newData hasPlace => contradiction
  | newCommand interface operation hasPlace => contradiction
  | delete k =>
    cases hcall
    exact Shared.command_dead (hask (.delete h) rfl)
  | clear k =>
    cases hcall
    exact Shared.command_dead (hask (.clear h) rfl)
  | kind k hasPlace =>
    cases hcall
    cases hasPlace with
    | false => rfl
    | true =>
      rw [run, Shared.request_dead (hask (.kind h) rfl)]
      rfl
  | argCount k hasPlace =>
    cases hcall
    cases hasPlace with
    | false => rfl
    | true =>
      rw [run, Shared.request_dead (hask (.argCount h) rfl)]
      rfl
  | setEncoded k input =>
    cases hcall
    rw [run, missing]
    cases input.contents? with
    | none => rfl
    | some blob => exact Shared.command_dead (hask (.setMetadata h blob) rfl)
  | setText k input =>
    cases hcall
    rw [run, missing]
    cases readText? input with
    | none => rfl
    | some text =>
      rw [Option.map_some]
      -- the text is encoded before the handle is looked up
      cases hblob : encodeText text with
      | error error => simp only [hblob]
      | ok blob =>
        simp only [hblob]
        exact Shared.command_dead (hask (.setMetadata h blob) rfl)
  | push k input =>
    cases hcall
    rw [run, missing]
    cases input.contents? with
    | none => rfl
    | some arg => exact Shared.command_dead (hask (.push h arg) rfl)
  | getEncoded k target =>
    cases hcall
    rw [run]
    exact Shared.deliver_dead (by rw [hobject]; rfl)
  | getText k target =>
    cases hcall
    rw [run]
    exact Shared.deliver_dead (by rw [metadataText, hobject])
  | getArg k index target =>
    cases hcall
    rw [run]
    exact Shared.deliver_dead (by rw [hobject]; rfl)
  | getInterface k target =>
    cases hcall
    rw [run]
    exact Shared.deliver_dead (by rw [Store.names, hobject]; rfl)
  | getOperation k target =>
    cases hcall
    rw [run]
    exact Shared.deliver_dead (by rw [Store.names, hobject]; rfl)
  | dump k target =>
    cases hcall
    rw [run]
    exact Shared.deliver_dead (by rw [Store.dump, hobject])

/-- **A call about a handle** brings no new handle, and does nothing to the store but to this
handle. -/
theorem run_about (hcall : call.handle? = some h) (s : Store) :
    ∃ answer effect, call.run (.ofStore s) = (answer, .ofStore (Effect.apply s h effect)) ∧
      answer.issued = none := by
  cases hget : s.objects.get? h with
  | none =>
    refine ⟨_, .keep, run_dead hcall hget, ?_⟩
    -- no answer about a dead handle brings one
    cases call <;> rfl
  | some stored =>
    exact ⟨_, _, run_live hcall (Store.object_eq_ok_iff.2 hget), issued_reply call h stored⟩

theorem issued_eq_none {answer : Answer} {shared : Shared} (hcall : call.handle? = some h)
    (hrun : call.run (.ofStore s) = (answer, shared)) : answer.issued = none := by
  obtain ⟨_, _, hrun', hissued⟩ := run_about hcall s
  cases hrun.symm.trans hrun'
  exact hissued

/-! ## Calls for a new handle -/

/-- The answer to a call for a new handle, with the shared store afterwards. -/
def allotted (s : Store) : Except Error (Handle × Store) → Answer × Shared
  | .ok (h, s') => (.handle .ok (some h), .ofStore s')
  | .error error => (.handle (.ofError error) none, .ofStore s)

theorem run_newData (s : Store) :
    (Call.newData true).run (.ofStore s) = allotted s (s.insert (.empty none)) := by
  rw [run, Shared.request_ofStore, outcome_ask_store, Store.perform_allocateData]
  cases s.insert (.empty none) <;> rfl

theorem run_newCommand {first second : Option Bytes} {interface operation : String}
    (hfirst : readText? first = some interface) (hsecond : readText? second = some operation)
    (s : Store) : (Call.newCommand first second true).run (.ofStore s) =
      allotted s (s.insertCommand interface operation) := by
  rw [run, hfirst, hsecond]
  dsimp only
  rw [Shared.request_ofStore, outcome_ask_store, Store.perform_allocateCommand]
  cases s.insertCommand interface operation <;> rfl

/-- **A call for a new handle** is refused in every store for the same reason, or stores an object
without content. -/
theorem run_new (hcall : call.handle? = none) :
    (∃ status, ∀ s, call.run (.ofStore s) = (.handle status none, .ofStore s)) ∨
      ∃ names, ∀ s, call.run (.ofStore s) = allotted s (s.insert (.empty names)) := by
  cases call with
  | newData hasPlace =>
    cases hasPlace with
    | false => exact .inl ⟨_, fun s => rfl⟩
    | true => exact .inr ⟨none, run_newData⟩
  | newCommand first second hasPlace =>
    cases hfirst : readText? first with
    | none => exact .inl ⟨.invalidArgument, fun s => by rw [run, hfirst]⟩
    | some interface =>
      cases hsecond : readText? second with
      | none => exact .inl ⟨.invalidArgument, fun s => by rw [run, hfirst, hsecond]⟩
      | some operation =>
        cases hasPlace with
        | false => exact .inl ⟨.invalidArgument, fun s => by rw [run, hfirst, hsecond]; rfl⟩
        | true =>
          -- the names are checked before there is any need of the store
          have hrun := run_newCommand hfirst hsecond
          cases hcheck : Store.checkNames interface operation with
          | error error =>
            refine .inl ⟨.ofError error, fun s => ?_⟩
            rw [hrun, Store.insertCommand, hcheck]
            rfl
          | ok =>
            refine .inr ⟨some (interface, operation), fun s => ?_⟩
            rw [hrun, Store.insertCommand, hcheck]
  | _ => contradiction

end Call

end Parcel
