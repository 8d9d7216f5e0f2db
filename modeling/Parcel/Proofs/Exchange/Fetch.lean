import Parcel.Exchange.Transfer
import Parcel.Proofs.Exchange.Growable
import Parcel.Proofs.Store.History

/-!
# Reading from a store

A store answers every read about a live handle from its stored object and changes nothing, so what a
transfer reads depends on that object only, and neither on the size of the first buffer nor on the
rest of the store.

## Main definitions

* `StoredObject.payload`, `StoredObject.command`, `StoredObject.object`: what is read of a stored
  object

## Main results

* `fetchArgs_store`: all arguments are read, in order
* `Payload.fetch_store`, `Command.fetch_store`, `Object.fetch_store`: reading from a store
-/

namespace Parcel

namespace StoredObject

/-- The payload that is read of a stored object. -/
def payload (object : StoredObject) : Except Error Payload :=
  (Entries.decode object.metadata).map fun m => ⟨object.args, m⟩

/-- The command that is read of the object that is stored under a handle. -/
def command (h : Handle) (object : StoredObject) : Except Error Command :=
  match object.names with
  | none => .error (.handleMismatch h .command)
  | some (interface, operation) =>
    object.payload.bind fun payload => Command.ofPayload interface operation payload

/-- The object that is read of the one that is stored under a handle. -/
def object (h : Handle) (object : StoredObject) : Except Error Object :=
  match object.names with
  | none => object.payload.map .data
  | some _ => (object.command h).map .command

end StoredObject

variable {s : Store} {h : Handle} {stored : StoredObject} {capacity : Nat}

/-- A request to a store is answered by the store. -/
theorem outcome_ask_store (request : Request) :
    (ask request : Session Store request.Reply).outcome s = s.perform request := rfl

/-! ## Arguments -/

/-- One argument, or the news that there is none. -/
theorem outcome_ask_arg (hstored : s.object h = .ok stored) (index size : Nat) :
    (ask (.arg h index size) : Session Store (Option Reading)).outcome s =
      (.ok (stored.args[index]?.map fun arg => Reading.ofItem arg size), s) := by
  rw [outcome_ask_store, Store.perform_arg, hstored]
  rfl

/-- **All arguments** from an index on are read, in order. -/
theorem fetchArgs_store (hstored : s.object h = .ok stored) {limit index : Nat} {read : List Bytes}
    (hlimit : stored.args.length < index + limit) :
    (fetchArgs capacity h limit index read).outcome s =
      (.ok (read.reverse ++ stored.args.drop index), s) := by
  -- each argument read leaves one unit of the limit and moves the index by one
  induction limit generalizing index read with
  | zero =>
    rw [fetchArgs, List.drop_of_length_le (by omega), List.append_nil]
    rfl
  | succ limit ih =>
    have hask := outcome_ask_arg hstored index
    rw [fetchArgs]
    cases harg : stored.args[index]? with
    | none =>
      simp only [harg, Option.map_none] at hask
      rw [Session.outcome_bind_of_ok (readGrowable_of_none hask),
        List.drop_of_length_le (List.getElem?_eq_none_iff.1 harg), List.append_nil]
      rfl
    | some arg =>
      simp only [harg, Option.map_some] at hask
      obtain ⟨hindex, rfl⟩ := List.getElem?_eq_some_iff.1 harg
      rw [Session.outcome_bind_of_ok (readGrowable_of_item hask)]
      dsimp only
      rw [ih (by omega), List.drop_eq_getElem_cons hindex]
      simp

/-! ## Payloads, commands and objects -/

theorem outcome_ask_metadata (hstored : s.object h = .ok stored) (size : Nat) :
    (some <$> ask (.metadata h size) : Session Store (Option Reading)).outcome s =
      (.ok (some (Reading.ofItem stored.metadata size)), s) := by
  rw [Session.outcome_map, outcome_ask_store, Store.perform_metadata, hstored]
  rfl

theorem outcome_ask_argCount (hstored : s.object h = .ok stored) :
    (ask (.argCount h) : Session Store Nat).outcome s = (.ok stored.args.length, s) := by
  rw [outcome_ask_store, Store.perform_argCount, hstored]
  rfl

/-- **The payload of a live handle** is that of its object. -/
theorem Payload.fetch_store (hstored : s.object h = .ok stored) :
    (Payload.fetch capacity h).outcome s = (stored.payload, s) := by
  rw [Payload.fetch, Session.outcome_bind_of_ok
    (readGrowable_of_item (outcome_ask_metadata hstored))]
  rw [StoredObject.payload, Option.getD_some]
  cases hdecode : Entries.decode stored.metadata with
  | error error =>
    rw [Session.outcome_bind_of_error (Session.outcome_ofExcept _)]
    rfl
  | ok m =>
    -- the limit covers all arguments and the answer that there is none left
    have hlimit : Holder.argLimit h s = stored.args.length := by
      show Store.argLimit h s = _
      rw [Store.argLimit, Store.object_eq_ok_iff.1 hstored]
    rw [Session.outcome_bind_of_ok (Session.outcome_ofExcept _),
      Session.outcome_bind_of_ok (outcome_ask_argCount hstored),
      Session.outcome_bind_of_ok Session.outcome_getThe, hlimit,
      Session.outcome_bind_of_ok (fetchArgs_store hstored (by omega))]
    rfl

theorem outcome_ask_kind (hstored : s.object h = .ok stored) :
    (ask (.kind h) : Session Store Kind).outcome s = (.ok stored.kind, s) := by
  rw [outcome_ask_store, Store.perform_kind, hstored]
  rfl

theorem outcome_ask_names (hstored : s.object h = .ok stored)
    {names : String × String} (hnames : stored.names = some names) :
    (ask (.names h) : Session Store (String × String)).outcome s = (.ok names, s) := by
  rw [outcome_ask_store, Store.perform_names]
  simp only [Store.names, hstored, hnames]

theorem outcome_requireCommand (hstored : s.object h = .ok stored) :
    (requireCommand h : Session Store Unit).outcome s =
      (match stored.names with
        | none => .error (.handleMismatch h .command)
        | some _ => .ok (), s) := by
  rw [requireCommand, Session.outcome_bind_of_ok (outcome_ask_kind hstored)]
  cases hnames : stored.names <;> simp [StoredObject.kind, hnames]

/-- **The command of a live handle** is that of its object, if the object is one. -/
theorem Command.fetch_store (hstored : s.object h = .ok stored) :
    (Command.fetch capacity h).outcome s = (stored.command h, s) := by
  have hrequire := outcome_requireCommand hstored
  rw [Command.fetch, StoredObject.command]
  -- the kind is asked for first, so data is refused before anything is read
  cases hnames : stored.names with
  | none =>
    simp only [hnames] at hrequire
    rw [Session.outcome_bind_of_error hrequire]
  | some names =>
    simp only [hnames] at hrequire
    have hfetch : (Payload.fetch capacity h).outcome s = (stored.payload, s) :=
      Payload.fetch_store hstored
    rw [Session.outcome_bind_of_ok hrequire]
    cases hpayload : stored.payload with
    | error error =>
      rw [hpayload] at hfetch
      rw [Session.outcome_bind_of_error hfetch]
      rfl
    | ok payload =>
      rw [hpayload] at hfetch
      rw [Session.outcome_bind_of_ok hfetch,
        Session.outcome_bind_of_ok (outcome_ask_names hstored hnames)]
      rfl

/-- **The object of a live handle**, whatever its kind. -/
theorem Object.fetch_store (hstored : s.object h = .ok stored) :
    (Object.fetch capacity h).outcome s = (stored.object h, s) := by
  have hkind := outcome_ask_kind hstored
  rw [Object.fetch, StoredObject.object]
  cases hnames : stored.names with
  | none =>
    have hdata : stored.kind = .data := by simp [StoredObject.kind, hnames]
    rw [hdata] at hkind
    rw [Session.outcome_bind_of_ok hkind]
    dsimp only
    rw [bind_pure_comp, Session.outcome_map, Payload.fetch_store hstored]
  | some names =>
    have hcommand : stored.kind = .command := by simp [StoredObject.kind, hnames]
    rw [hcommand] at hkind
    rw [Session.outcome_bind_of_ok hkind]
    dsimp only
    rw [bind_pure_comp, Session.outcome_map, Command.fetch_store hstored]

end Parcel
