import Parcel.Exchange

/-!
# Holders that play a script

A holder whose answers are fixed in advance, whatever it is asked: the readings come from a list,
and chosen requests fail. It shows how a transfer deals with answers that no store would give.

## Main definitions

* `Script`: the answers of such a holder, and the requests it was asked
-/

namespace Parcel

/-- The answers of a holder that plays a script. -/
structure Script where
  kind : Kind
  names : String × String
  argCount : Nat
  /-- The answers to reads, in order: an item, no item, or a failure. When there are none left, no
  item is there. -/
  readings : List (Except Error (Option Reading))
  /-- The requests that fail. -/
  fails : Request → Option Error
  /-- The handles that are given out for data and for commands. -/
  handles : Handle × Handle
  /-- The requests so far, in order. -/
  requests : List Request

namespace Script

/-- The answer to the next read, and the script behind it. -/
def next (s : Script) : Except Error (Option Reading) × Script :=
  match s.readings with
  | [] => (.ok none, s)
  | reading :: rest => (reading, { s with readings := rest })

/-- The answer to a request that does not fail. -/
def answer (request : Request) (s : Script) : Except Error request.Reply × Script :=
  match request with
  | .allocateData => (.ok s.handles.1, s)
  | .allocateCommand _ _ => (.ok s.handles.2, s)
  | .kind _ => (.ok s.kind, s)
  | .clear _ => (.ok (), s)
  | .setMetadata _ _ => (.ok (), s)
  | .metadata _ _ =>
    let (reading, s) := s.next
    (reading.map fun found => found.getD ⟨0, []⟩, s)
  | .push _ _ => (.ok (), s)
  | .arg _ _ _ => s.next
  | .argCount _ => (.ok s.argCount, s)
  | .setNames _ _ _ => (.ok (), s)
  | .names _ => (.ok s.names, s)
  | .delete _ => (.ok (), s)

/-- The answer to a request, which is noted first. -/
def perform (request : Request) (s : Script) : Except Error request.Reply × Script :=
  let noted := { s with requests := s.requests ++ [request] }
  match s.fails request with
  | some error => (.error error, noted)
  | none => noted.answer request

instance : Holder Script where
  perform := perform
  argLimit _ s := s.readings.length

end Script

end Parcel
