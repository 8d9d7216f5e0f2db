import Parcel.Exchange

/-!
# Holders that give out

A holder with a ration of new handles and a ration of new arguments refuses whatever exceeds them.
It stands for a holder that fails in the middle of a transfer.

## Main definitions

* `Rationed`: a holder with the two rations, either of which may be without end
-/

namespace Parcel

/-- A holder with what is left of its rations. -/
structure Rationed (σ : Type) where
  inner : σ
  /-- The allocations that are left. -/
  allocations : Option Nat
  /-- The arguments that are left. -/
  arguments : Option Nat

namespace Rationed

variable {σ : Type} [Holder σ]

/-- Takes one off a ration, unless there is none left; what has no end stays as it is. -/
def spend? : Option Nat → Option (Option Nat)
  | none => some none
  | some 0 => none
  | some (left + 1) => some (some left)

/-- The answer of the holder inside, whose state alone changes. -/
def forward (request : Request) (r : Rationed σ) : Except Error request.Reply × Rationed σ :=
  let (reply, inner) := Holder.perform request r.inner
  (reply, { r with inner := inner })

/-- The answer to a request that takes from the allocations, which counts even if it fails. -/
def allocate (request : Request) (r : Rationed σ) : Except Error request.Reply × Rationed σ :=
  match spend? r.allocations with
  | none => (.error (.allocationFailed "injected allocation failure"), r)
  | some left => forward request { r with allocations := left }

/-- The answer to a request that takes from the arguments, which counts even if it fails. -/
def add (request : Request) (r : Rationed σ) : Except Error request.Reply × Rationed σ :=
  match spend? r.arguments with
  | none => (.error (.allocationFailed "injected push failure"), r)
  | some left => forward request { r with arguments := left }

/-- The answer to a request. -/
def perform (request : Request) (r : Rationed σ) : Except Error request.Reply × Rationed σ :=
  match request with
  | .allocateData => allocate .allocateData r
  | .allocateCommand interface operation => allocate (.allocateCommand interface operation) r
  | .push h arg => add (.push h arg) r
  | other => forward other r

instance : Holder (Rationed σ) where
  perform := perform
  argLimit h r := Holder.argLimit h r.inner

end Rationed

end Parcel
