import Parcel.Exchange.Rationed
import Parcel.Proofs.Exchange.Put

/-!
# Transfers to a holder that gives out

A holder with rations answers as the holder inside does until a ration is used up. So the arguments
of a payload are all added if the ration of arguments covers them; otherwise as many are added as
are left, and the next one is refused.

## Main definitions

* `Rationed.Covers`: rations that cover a number of requests

## Main results

* `Rationed.outcome_ask_forward`, `Rationed.outcome_ask_push`: single requests
* `Rationed.pushAll_of_covers`, `Rationed.pushAll_of_lt`: arguments one after the other
* `Payload.write_of_covers`, `Payload.write_of_lt`: a payload, under a handle of a store
-/

namespace Parcel

open Json

namespace Rationed

variable {σ : Type} [Holder σ] {inner inner' : σ} {allocations arguments : Option Nat} {h : Handle}
  {left n : Nat}

/-! ## Rations -/

/-- **Rations that cover** that many requests. -/
def Covers (ration : Option Nat) (n : Nat) : Prop :=
  ∀ left, ration = some left → n ≤ left

theorem covers_or_exists_lt (ration : Option Nat) (n : Nat) :
    Covers ration n ∨ ∃ left, ration = some left ∧ left < n := by
  cases ration with
  | none => exact .inl nofun
  | some left =>
    rcases Nat.lt_or_ge left n with hlt | hge
    · exact .inr ⟨left, rfl, hlt⟩
    · exact .inl fun other h => Option.some.inj h ▸ hge

/-- The error of a request for which no argument is left. -/
def noArgument : Error := .allocationFailed "injected push failure"

/-- The error of a request for which no allocation is left. -/
def noAllocation : Error := .allocationFailed "injected allocation failure"

theorem spend?_of_covers {ration : Option Nat} (hcovers : Covers ration (n + 1)) :
    spend? ration = some (ration.map (· - 1)) ∧ Covers (ration.map (· - 1)) n := by
  cases ration with
  | none => exact ⟨rfl, nofun⟩
  | some left =>
    have hle := hcovers left rfl
    cases left with
    | zero => omega
    | succ left =>
      refine ⟨rfl, ?_⟩
      rintro other ⟨⟩
      exact Nat.le_of_succ_le_succ hle

/-! ## Requests -/

/-- A request that takes from neither ration is answered by the holder inside. -/
theorem outcome_ask_forward {request : Request} {reply : Except Error request.Reply}
    (hforward : perform request (⟨inner, allocations, arguments⟩ : Rationed σ) =
      forward request ⟨inner, allocations, arguments⟩)
    (hask : (ask request : Session σ request.Reply).outcome inner = (reply, inner')) :
    (ask request : Session (Rationed σ) request.Reply).outcome ⟨inner, allocations, arguments⟩ =
      (reply, ⟨inner', allocations, arguments⟩) := by
  have hperform : Holder.perform request inner = (reply, inner') := hask
  rw [Session.outcome_ask]
  show perform request _ = _
  rw [hforward, forward, hperform]

theorem outcome_ask_push {arg : Bytes} (hcovers : Covers arguments (n + 1))
    (hask : (ask (.push h arg) : Session σ Unit).outcome inner = (.ok (), inner')) :
    (ask (.push h arg) : Session (Rationed σ) Unit).outcome ⟨inner, allocations, arguments⟩ =
      (.ok (), ⟨inner', allocations, arguments.map (· - 1)⟩) := by
  have hperform : Holder.perform (.push h arg) inner = (.ok (), inner') := hask
  rw [Session.outcome_ask]
  show add (.push h arg) _ = _
  rw [add, (spend?_of_covers hcovers).1]
  dsimp only
  rw [forward, hperform]

/-! ## Arguments -/

/-- **Arguments that the ration covers** are added as they are to the holder inside. -/
theorem pushAll_of_covers {args : List Bytes} (hcovers : Covers arguments args.length)
    (hinner : (pushAll h args).outcome inner = (.ok (), inner')) :
    (pushAll h args).outcome (⟨inner, allocations, arguments⟩ : Rationed σ) =
      (.ok (), ⟨inner', allocations, arguments.map (· - args.length)⟩) := by
  -- each argument takes one off the ration, and what is left covers the others
  induction args generalizing inner arguments with
  | nil =>
    cases hinner
    cases arguments <;> rfl
  | cons arg rest ih =>
    obtain ⟨_, between, hfirst, hrest⟩ := Session.exists_of_outcome_bind hinner
    have hleft : (arguments.map (· - 1)).map (· - rest.length) =
        arguments.map (· - (arg :: rest).length) := by
      cases arguments with
      | none => rfl
      | some left => simp [Nat.sub_sub, Nat.add_comm]
    rw [pushAll, Session.outcome_bind_of_ok (outcome_ask_push hcovers hfirst),
      ih (spend?_of_covers hcovers).2 hrest, hleft]

/-- **Arguments that exceed the ration** are added as far as it goes; the next one is refused. -/
theorem pushAll_of_lt {args : List Bytes} (hlt : left < args.length)
    (hinner : (pushAll h (args.take left)).outcome inner = (.ok (), inner')) :
    (pushAll h args).outcome (⟨inner, allocations, some left⟩ : Rationed σ) =
      (.error noArgument, ⟨inner', allocations, some 0⟩) := by
  -- each argument takes one off the ration, and the first without one is refused
  induction args generalizing inner left with
  | nil => contradiction
  | cons arg rest ih =>
    cases left with
    | zero =>
      cases hinner
      have hrefused : (ask (.push h arg) : Session (Rationed σ) Unit).outcome
          ⟨inner', allocations, some 0⟩ = (.error noArgument, ⟨inner', allocations, some 0⟩) := rfl
      rw [pushAll, Session.outcome_bind_of_error hrefused]
    | succ left =>
      rw [List.take_succ_cons, pushAll] at hinner
      obtain ⟨_, between, hfirst, hrest⟩ := Session.exists_of_outcome_bind hinner
      have hcovers : Covers (some (left + 1)) (left + 1) := by
        rintro other ⟨⟩
        exact Nat.le_refl _
      rw [pushAll, Session.outcome_bind_of_ok (outcome_ask_push hcovers hfirst)]
      exact ih (Nat.lt_of_succ_lt_succ hlt) hrest

end Rationed

/-! ## Payloads -/

namespace Payload

open Rationed

variable {s : Store} {p : Payload} {h : Handle} {names : Option (String × String)}
  {allocations arguments : Option Nat} {left : Nat}

theorem outcome_ask_setMetadata_rationed (hp : p.Lawful)
    (haddressable : Addressable (.object p.metadata)) (hempty : s.object h = .ok (.empty names)) :
    (ask (.setMetadata h (Entries.encode p.metadata)) : Session (Rationed Store) Unit).outcome
        ⟨s, allocations, arguments⟩ =
      (.ok (), ⟨s.withObject h ⟨Entries.encode p.metadata, [], names⟩, allocations, arguments⟩) :=
  outcome_ask_forward rfl
    (outcome_ask_setMetadata hempty (Entries.decode_encode hp.proper haddressable hp.check))

/-- **A payload that the ration covers** is written as a whole. -/
theorem write_of_covers (hp : p.Lawful) (haddressable : Addressable (.object p.metadata))
    (hempty : s.object h = .ok (.empty names)) (hcovers : Covers arguments p.args.length) :
    (p.write h).outcome (⟨s, allocations, arguments⟩ : Rationed Store) =
      (.ok (), ⟨s.withObject h ⟨Entries.encode p.metadata, p.args, names⟩, allocations,
        arguments.map (· - p.args.length)⟩) := by
  rw [write, Session.outcome_bind_of_ok (outcome_ask_setMetadata_rationed hp haddressable hempty)]
  exact pushAll_of_covers hcovers (pushAll_store hempty _ p.args)

/-- **A payload that exceeds the ration** is written without the arguments that it does not
cover. -/
theorem write_of_lt (hp : p.Lawful) (haddressable : Addressable (.object p.metadata))
    (hempty : s.object h = .ok (.empty names)) (hlt : left < p.args.length) :
    (p.write h).outcome (⟨s, allocations, some left⟩ : Rationed Store) =
      (.error noArgument,
        ⟨s.withObject h ⟨Entries.encode p.metadata, p.args.take left, names⟩,
          allocations, some 0⟩) := by
  rw [write, Session.outcome_bind_of_ok (outcome_ask_setMetadata_rationed hp haddressable hempty)]
  exact pushAll_of_lt hlt (pushAll_store hempty _ (p.args.take left))

end Payload

end Parcel
