import Parcel.Exchange.Recording
import Parcel.Proofs.Exchange.Live

/-!
# The requests of a reading

Reading an object takes requests that can be told in advance from what is stored. Each item is asked
for with a buffer of the usual size, and once more with one of its own size if it is longer. The
metadata comes first, then the number of arguments, then the arguments in order until there is none;
a command is asked for its kind before all that and for its names behind it. A store that keeps a
record of what it is asked answers as it would without one, and the record shows these requests and
no others.

## Main definitions

* `bufferSizes`: the sizes of the buffers that an item is read into
* `argRequests`: the requests of reading arguments from an index on
* `StoredObject.payloadRequests`, `StoredObject.commandRequests`: those of reading a stored object

## Main results

* `readGrowable_recorded`: the requests of reading one item
* `fetchArgs_recorded`: arguments are read until there is none, and each of them once
* `Payload.fetch_recorded`, `Command.fetch_recorded`: whole objects
* `reading_makes_the_requests_of_the_object`: every live handle of every store
-/

namespace Parcel

/-! ## Requests -/

/-- **The sizes of the buffers** that an item of the given length is read into: `capacity`, and at
least one byte, and then its length, if that is more. -/
def bufferSizes (capacity length : Nat) : List Nat :=
  max capacity 1 :: if max capacity 1 < length then [length] else []

/-- **The requests of reading arguments**, the first of which has the given index. Behind the last
one there is a request that finds none. -/
def argRequests (capacity : Nat) (h : Handle) (args : List Bytes) (index : Nat) : List Request :=
  (args.zipIdx index).flatMap (fun (arg, i) => (bufferSizes capacity arg.length).map (.arg h i)) ++
    [.arg h (index + args.length) (max capacity 1)]

namespace StoredObject

/-- **The requests of reading a payload**: metadata, the number of arguments, and the arguments. -/
def payloadRequests (stored : StoredObject) (capacity : Nat) (h : Handle) : List Request :=
  (bufferSizes capacity stored.metadata.length).map (.metadata h) ++
    .argCount h :: argRequests capacity h stored.args 0

/-- **The requests of reading a command**: its kind, its payload, and its names. -/
def commandRequests (stored : StoredObject) (capacity : Nat) (h : Handle) : List Request :=
  .kind h :: (stored.payloadRequests capacity h ++ [.names h])

end StoredObject

theorem argRequests_nil (capacity : Nat) (h : Handle) (index : Nat) :
    argRequests capacity h [] index = [.arg h index (max capacity 1)] := rfl

theorem argRequests_cons (capacity : Nat) (h : Handle) (arg : Bytes) (args : List Bytes)
    (index : Nat) : argRequests capacity h (arg :: args) index =
      (bufferSizes capacity arg.length).map (.arg h index) ++
        argRequests capacity h args (index + 1) := by
  have hlast : index + (arg :: args).length = index + 1 + args.length := by
    rw [List.length_cons]
    omega
  rw [argRequests, argRequests, List.zipIdx_cons, List.flatMap_cons, List.append_assoc, hlast]

/-- An item that fits the first buffer takes one request, and a longer one takes two. -/
theorem map_bufferSizes (capacity length : Nat) (request : Nat → Request) :
    (bufferSizes capacity length).map request =
      request (max capacity 1) :: if max capacity 1 < length then [request length] else [] := by
  rw [bufferSizes, List.map_cons, apply_ite (List.map request)]
  rfl

/-! ## Recorded readings -/

section

variable {σ : Type} {s : σ} {capacity : Nat} {request : Nat → Request}
  {read : Nat → Session (Recording σ) (Option Reading)}

/-- **The requests of reading one item** from a holder that answers each of them from the item. -/
theorem readGrowable_recorded {item : Bytes}
    (h : ∀ size log, (read size).outcome ⟨s, log⟩ =
      (.ok (some (Reading.ofItem item size)), ⟨s, log ++ [request size]⟩)) (log : List Request) :
    (readGrowable capacity read).outcome ⟨s, log⟩ =
      (.ok (some item), ⟨s, log ++ (bufferSizes capacity item.length).map request⟩) := by
  rw [readGrowable_of_readings (h _ log) fun _ => h _ _, map_bufferSizes]
  split <;> simp

/-- An item that is not there takes one request. -/
theorem readGrowable_recorded_none
    (h : ∀ size log, (read size).outcome ⟨s, log⟩ = (.ok none, ⟨s, log ++ [request size]⟩))
    (log : List Request) : (readGrowable capacity read).outcome ⟨s, log⟩ =
      (.ok none, ⟨s, log ++ [request (max capacity 1)]⟩) := by
  rw [readGrowable, Session.outcome_bind_of_ok (h _ log), Bytes.length_zeros]
  rfl

end

variable {s : Store} {h : Handle} {stored : StoredObject} {capacity : Nat}

/-- A request to a store with a record is answered by the store, and noted. -/
theorem outcome_ask_recorded {request : Request} {result : Except Error request.Reply}
    (hask : (ask request : Session Store request.Reply).outcome s = (result, s))
    (log : List Request) :
    (ask request : Session (Recording Store) request.Reply).outcome ⟨s, log⟩ =
      (result, ⟨s, log ++ [request]⟩) := by
  rw [outcome_ask_store] at hask
  show ((s.perform request).1, Recording.mk (s.perform request).2 (log ++ [request])) = _
  rw [hask]

/-- **Arguments are read until there is none**, whatever limit there is beyond their number, and
each of them is read once. -/
theorem fetchArgs_recorded (hstored : s.object h = .ok stored) {limit index : Nat}
    {read : List Bytes} (hindex : index ≤ stored.args.length)
    (hlimit : stored.args.length < index + limit) (log : List Request) :
    (fetchArgs capacity h limit index read).outcome (⟨s, log⟩ : Recording Store) =
      (.ok (read.reverse ++ stored.args.drop index),
        ⟨s, log ++ argRequests capacity h (stored.args.drop index) index⟩) := by
  -- each argument read leaves one unit of the limit and moves the index by one
  induction limit generalizing index read log with
  | zero => omega
  | succ limit ih =>
    have hask := fun size => outcome_ask_recorded (outcome_ask_arg hstored index size)
    rw [fetchArgs]
    cases harg : stored.args[index]? with
    | none =>
      simp only [harg, Option.map_none] at hask
      rw [Session.outcome_bind_of_ok (readGrowable_recorded_none hask log),
        List.drop_of_length_le (List.getElem?_eq_none_iff.1 harg), List.append_nil,
        argRequests_nil]
      rfl
    | some arg =>
      simp only [harg, Option.map_some] at hask
      obtain ⟨hlt, rfl⟩ := List.getElem?_eq_some_iff.1 harg
      rw [Session.outcome_bind_of_ok (readGrowable_recorded hask log)]
      dsimp only
      rw [ih (by omega) (by omega), List.drop_eq_getElem_cons hlt, argRequests_cons]
      simp

/-- **The requests of reading a payload.** -/
theorem Payload.fetch_recorded (hstored : s.object h = .ok stored) {m : Entries}
    (hm : Entries.decode stored.metadata = .ok m) (log : List Request) :
    (Payload.fetch capacity h).outcome (⟨s, log⟩ : Recording Store) =
      (.ok ⟨stored.args, m⟩, ⟨s, log ++ stored.payloadRequests capacity h⟩) := by
  have hmetadata : ∀ size log,
      (some <$> ask (.metadata h size) : Session (Recording Store) (Option Reading)).outcome
        ⟨s, log⟩ = (.ok (some (Reading.ofItem stored.metadata size)),
          ⟨s, log ++ [.metadata h size]⟩) := by
    intro size log
    have hask : (ask (.metadata h size) : Session Store Reading).outcome s =
        (.ok (Reading.ofItem stored.metadata size), s) := by
      rw [outcome_ask_store, Store.perform_metadata, hstored]
      rfl
    rw [Session.outcome_map, outcome_ask_recorded hask]
    rfl
  have hcount := outcome_ask_argCount hstored
  -- the limit is that of the store, which covers all arguments and the answer that there is none
  have hlimit (log : List Request) : Holder.argLimit h (⟨s, log⟩ : Recording Store) =
      stored.args.length := by
    show Store.argLimit h s = _
    rw [Store.argLimit, Store.object_eq_ok_iff.1 hstored]
  rw [Payload.fetch, Session.outcome_bind_of_ok (readGrowable_recorded hmetadata log),
    Option.getD_some, hm, Session.outcome_bind_of_ok (Session.outcome_ofExcept _),
    Session.outcome_bind_of_ok (outcome_ask_recorded hcount _),
    Session.outcome_bind_of_ok Session.outcome_getThe, hlimit,
    Session.outcome_bind_of_ok (fetchArgs_recorded hstored (Nat.zero_le _) (by omega) _)]
  simp [StoredObject.payloadRequests]

/-- **The requests of reading a command.** -/
theorem Command.fetch_recorded (hstored : s.object h = .ok stored) {m : Entries}
    (hm : Entries.decode stored.metadata = .ok m) {interface operation : Identifier}
    (hnames : stored.names = some (interface.text, operation.text)) (log : List Request) :
    (Command.fetch capacity h).outcome (⟨s, log⟩ : Recording Store) =
      (.ok ⟨interface, operation, ⟨stored.args, m⟩⟩,
        ⟨s, log ++ stored.commandRequests capacity h⟩) := by
  have hkind := outcome_ask_recorded (outcome_ask_kind hstored) log
  have hrequire : (requireCommand h : Session (Recording Store) Unit).outcome ⟨s, log⟩ =
      (.ok (), ⟨s, log ++ [.kind h]⟩) := by
    rw [requireCommand, Session.outcome_bind_of_ok hkind]
    simp [StoredObject.kind, hnames]
  rw [Command.fetch, Session.outcome_bind_of_ok hrequire,
    Session.outcome_bind_of_ok (Payload.fetch_recorded hstored hm _),
    Session.outcome_bind_of_ok (outcome_ask_recorded (outcome_ask_names hstored hnames) _)]
  simp [Command.ofPayload, Identifier.ofString_text, StoredObject.commandRequests]

namespace Store

/-- **Reading makes the requests of the object.** In every store that requests lead to, behind
whatever was recorded before, reading the payload of a live handle is recorded as the requests for
the metadata, the number of arguments and each argument in order, up to the one that finds none: a
request with a buffer of `capacity` bytes, and at least one, and one more with a buffer of exactly
the item's length if that is more. Reading a command is recorded as these, with the request for the
kind before them and the one for the names behind. What is read is the object, and the store stays
as it was. That no argument is left is what ends the reading of arguments: with any limit beyond
their number they are read by the same requests. -/
theorem reading_makes_the_requests_of_the_object {limit : Option Nat} {s₀ : Store}
    (hs : ofLimit limit = .ok s₀) (requests : List Request) :
    let s := (s₀.run requests).2
    ∀ h ∈ s.liveHandles, ∃ stored m, s.object h = .ok stored ∧
      Entries.decode stored.metadata = .ok m ∧ ∀ (capacity : Nat) (log : List Request),
        (Payload.fetch capacity h).outcome (⟨s, log⟩ : Recording Store) =
          (.ok ⟨stored.args, m⟩, ⟨s, log ++ stored.payloadRequests capacity h⟩) ∧
        (stored.kind = .command → ∃ c : Command, c.payload = ⟨stored.args, m⟩ ∧
          stored.names = some (c.interface.text, c.operation.text) ∧
          (Command.fetch capacity h).outcome (⟨s, log⟩ : Recording Store) =
            (.ok c, ⟨s, log ++ stored.commandRequests capacity h⟩)) ∧
        ∀ limit, stored.args.length < limit →
          (fetchArgs capacity h limit 0 []).outcome (⟨s, log⟩ : Recording Store) =
            (.ok stored.args, ⟨s, log ++ argRequests capacity h stored.args 0⟩) := by
  intro s h hlive
  have hsound := sound_run hs requests
  obtain ⟨stored, hstored⟩ := (mem_liveHandles hsound.advance.wellFormed).1 hlive
  have hreadable := hsound.readable h stored (object_eq_ok_iff.1 hstored)
  obtain ⟨m, hm⟩ := hreadable.decodes
  refine ⟨stored, m, hstored, hm, fun capacity log =>
    ⟨Payload.fetch_recorded hstored hm log, fun hkind => ?_, fun limit hlimit => ?_⟩⟩
  · cases hnames : stored.names with
    | none => simp [StoredObject.kind, hnames] at hkind
    | some names =>
      obtain ⟨hinterface, hoperation⟩ := hreadable.names names hnames
      exact ⟨⟨⟨names.1, hinterface⟩, ⟨names.2, hoperation⟩, ⟨stored.args, m⟩⟩, rfl, rfl,
        Command.fetch_recorded hstored hm hnames log⟩
  · refine (fetchArgs_recorded hstored (Nat.zero_le _) (by rwa [Nat.zero_add]) log).trans ?_
    rw [List.reverse_nil, List.nil_append, List.drop_zero]

/-- A command with an argument that fits the first buffer, one that does not, and an empty one. -/
theorem reading_makes_the_requests_of_the_object_command :
    let s := (empty.run [.allocateCommand "lamp" "switch", .push 1 [7, 8], .push 1 [7, 8, 9],
      .push 1 []]).2
    1 ∈ s.liveHandles ∧ ∃ c : Command, (Command.fetch 2 1).outcome (⟨s, []⟩ : Recording Store) =
      (.ok c, ⟨s, [.kind 1, .metadata 1 2, .argCount 1, .arg 1 0 2, .arg 1 1 2, .arg 1 1 3,
        .arg 1 2 2, .arg 1 3 2, .names 1]⟩) := by
  intro s
  have hlive : 1 ∈ s.liveHandles := by decide +kernel
  obtain ⟨stored, m, hstored, -, hread⟩ := reading_makes_the_requests_of_the_object
    ofLimit_none _ 1 hlive
  have hobject : (s.object 1).toOption = some ⟨emptyEncoding, [[7, 8], [7, 8, 9], []],
      some ("lamp", "switch")⟩ := by
    decide +kernel
  rw [hstored] at hobject
  cases hobject
  obtain ⟨c, -, -, hfetch⟩ := (hread 2 []).2.1 rfl
  exact ⟨hlive, c, hfetch⟩

end Store

end Parcel
