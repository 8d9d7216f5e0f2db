import Parcel.Proofs.Exchange.FirstFailure
import Parcel.Proofs.Exchange.Rationed
import Parcel.Proofs.Exchange.RoundTrip

/-!
# New handles do not leak

An object that is written under a new handle is there as a whole or not at all. Writing can fail
when the handle is given out and at every argument; in the first case nothing has happened, and in
the second the handle is deleted again, which neither ration stands in the way of.

## Main definitions

* `Object.Placed`: how writing under a new handle can end
* `Object.Undone`: what holds if it failed

## Main results

* `Object.placed_put`: these are all the ways it can end
* `Object.undone_of_placed`: a failure leaves the store inside as it was
* `Object.fresh_handle_never_leaks`: all rations, and all stores that requests can lead to
-/

namespace Parcel

open Json Rationed

variable {s s' s₁ s₂ : Store} {h : Handle} {o : Object} {object : StoredObject}
  {allocations arguments left : Option Nat}

/-! ## A handle that is given out and deleted -/

namespace Store

theorem object_congr {k : Handle} (hget : s'.objects.get? k = s.objects.get? k) :
    s'.object k = s.object k := by
  rw [Store.object, Store.object, hget]

/-- **A handle that is given out and deleted again** leaves the objects as they were, whatever was
written under it meanwhile. -/
theorem object_of_insert_of_delete (hs : s.objects.WellFormed) {x : StoredObject}
    (hi : s.insert object = .ok (h, s₁)) (hdelete : (s₁.withObject h x).delete h = .ok s₂) :
    s₂.objects.WellFormed ∧ ∀ k, s₂.object k = s.object k := by
  obtain ⟨objects, hinsert, rfl⟩ := insert_eq_ok hi
  obtain ⟨hdead, hother⟩ := Table.get?_insert hs hinsert
  constructor
  · obtain ⟨old, rest, hremove, rfl⟩ := delete_eq_ok hdelete
    exact ((hs.insert hinsert).update h x).remove hremove
  · intro k
    refine object_congr ?_
    rw [get?_delete hdelete, withObject, Table.get?_update]
    by_cases hk : k = h
    · simp [hk, hdead]
    · simp [hother, hk]

end Store

/-! ## Requests -/

theorem outcome_allocate_of_none (arguments : Option Nat) (o : Object)
    (hleft : spend? allocations = none) :
    (o.allocate : Session (Rationed Store) Handle).outcome ⟨s, allocations, arguments⟩ =
      (.error noAllocation, ⟨s, allocations, arguments⟩) := by
  cases o <;>
  · show Rationed.allocate _ _ = _
    rw [Rationed.allocate, hleft]
    rfl

/-- **A handle for a new object** comes from the store inside, if an allocation is left. -/
theorem outcome_allocate_of_some (s : Store) (arguments : Option Nat) (o : Object)
    (hleft : spend? allocations = some left) :
    (o.allocate : Session (Rationed Store) Handle).outcome ⟨s, allocations, arguments⟩ =
      match s.insert (.empty o.nameTexts) with
      | .ok (h, s₁) => (.ok h, ⟨s₁, left, arguments⟩)
      | .error error => (.error error, ⟨s, left, arguments⟩) := by
  have hforward : (o.allocate : Session (Rationed Store) Handle).outcome
        ⟨s, allocations, arguments⟩ =
      (((o.allocate : Session Store Handle).outcome s).1,
        ⟨((o.allocate : Session Store Handle).outcome s).2, left, arguments⟩) := by
    cases o <;>
    · show Rationed.allocate _ _ = _
      rw [Rationed.allocate, hleft]
      rfl
  rw [hforward, outcome_allocate_store]
  cases s.insert (.empty o.nameTexts) <;> rfl

theorem perform_delete_rationed (allocations arguments : Option Nat)
    (hdelete : s.delete h = .ok s') :
    (Holder.perform (.delete h) (⟨s, allocations, arguments⟩ : Rationed Store)).2 =
      ⟨s', allocations, arguments⟩ := by
  show (⟨(s.perform (.delete h)).2, allocations, arguments⟩ : Rationed Store) = _
  rw [Store.perform_delete, hdelete]
  rfl

/-! ## New objects -/

namespace Object

/-- **How writing under a new handle ends.** -/
inductive Placed (o : Object) (r : Rationed Store) : Except Error Handle → Rationed Store → Prop
  /-- No allocation is left. -/
  | noAllocation (hleft : spend? r.allocations = none) : Placed o r (.error noAllocation) r
  /-- The store has no room for the object. -/
  | refused {left : Option Nat} {error : Error} (hleft : spend? r.allocations = some left)
      (hi : r.inner.insert (.empty o.nameTexts) = .error error) :
      Placed o r (.error error) ⟨r.inner, left, r.arguments⟩
  /-- The ration of arguments is used up, and the handle is deleted again. -/
  | withdrawn {left : Option Nat} {rest : Nat} {h : Handle} {s₁ s₂ : Store}
      (hleft : spend? r.allocations = some left)
      (hi : r.inner.insert (.empty o.nameTexts) = .ok (h, s₁))
      (hrest : r.arguments = some rest) (hlt : rest < o.payload.args.length)
      (hdelete : (s₁.withObject h
        ⟨Entries.encode o.payload.metadata, o.payload.args.take rest,
          o.nameTexts⟩).delete h = .ok s₂) :
      Placed o r (.error noArgument) ⟨s₂, left, some 0⟩
  /-- The rations suffice. -/
  | kept {left : Option Nat} {h : Handle} {s₁ : Store} (hleft : spend? r.allocations = some left)
      (hi : r.inner.insert (.empty o.nameTexts) = .ok (h, s₁))
      (hcovers : Covers r.arguments o.payload.args.length) :
      Placed o r (.ok h) ⟨s₁.withObject h (o.stored none), left,
        r.arguments.map (· - o.payload.args.length)⟩

/-- **Writing under a new handle** ends in one of the four ways. -/
theorem placed_put (allocations arguments : Option Nat) (hs : s.objects.WellFormed)
    (hp : o.payload.Lawful) (haddressable : Addressable (.object o.payload.metadata)) :
    let outcome := (o.put none).outcome (⟨s, allocations, arguments⟩ : Rationed Store)
    o.Placed ⟨s, allocations, arguments⟩ outcome.1 outcome.2 := by
  rw [put_none]
  -- in the order of the steps: the ration, the room for the object, then its arguments
  cases hleft : spend? allocations with
  | none =>
    rw [Session.outcome_bind_of_error (outcome_allocate_of_none arguments o hleft)]
    exact .noAllocation hleft
  | some left =>
    have hallocate := outcome_allocate_of_some s arguments o hleft
    cases hi : s.insert (.empty o.nameTexts) with
    | error error =>
      rw [hi] at hallocate
      rw [Session.outcome_bind_of_error hallocate]
      exact .refused hleft hi
    | ok found =>
      obtain ⟨h, s₁⟩ := found
      rw [hi] at hallocate
      have hempty : s₁.object h = .ok (.empty o.nameTexts) := by
        rw [(Store.object_insert hs hi).2, if_pos rfl]
      rw [Session.outcome_bind_of_ok hallocate, outcome_keepOrDelete]
      rcases covers_or_exists_lt arguments o.payload.args.length with hcovers | ⟨rest, rfl, hlt⟩
      · rw [Payload.write_of_covers hp haddressable hempty hcovers]
        rw [← stored_none]
        exact .kept hleft hi hcovers
      · rw [Payload.write_of_lt hp haddressable hempty hlt]
        obtain ⟨s₂, hdelete⟩ := Store.exists_delete (object_withObject_self hempty
          ⟨Entries.encode o.payload.metadata, o.payload.args.take rest, o.nameTexts⟩)
        dsimp only
        rw [perform_delete_rationed left (some 0) hdelete]
        exact .withdrawn hleft hi rfl hlt hdelete

/-- **What a failure leaves behind**: the store inside is what it was, and a handle that was given
out meanwhile is dead. -/
structure Undone (o : Object) (r r' : Rationed Store) : Prop where
  objects : ∀ k, r'.inner.object k = r.inner.object k
  live : ∀ k, k ∈ r'.inner.liveHandles ↔ k ∈ r.inner.liveHandles
  dead : ∀ h between, (o.allocate : Session (Rationed Store) Handle).outcome r = (.ok h, between) →
    h ∉ r'.inner.liveHandles

/-- A handle that is given out was dead before. -/
theorem not_mem_liveHandles_of_allocate {r between : Rationed Store}
    (hs : r.inner.objects.WellFormed)
    (hallocate : (o.allocate : Session (Rationed Store) Handle).outcome r = (.ok h, between)) :
    h ∉ r.inner.liveHandles := by
  obtain ⟨s, allocations, arguments⟩ := r
  cases hleft : spend? allocations with
  | none => simp [outcome_allocate_of_none arguments o hleft] at hallocate
  | some left =>
    rw [outcome_allocate_of_some s arguments o hleft] at hallocate
    cases hi : s.insert (.empty o.nameTexts) with
    | error error => simp [hi] at hallocate
    | ok found =>
      obtain ⟨k, s₁⟩ := found
      simp only [hi, Prod.mk.injEq, Except.ok.injEq] at hallocate
      obtain ⟨rfl, -⟩ := hallocate
      rw [Store.mem_liveHandles hs]
      rintro ⟨x, hx⟩
      exact (Store.object_insert hs hi).1 x hx

/-- A store that has the same objects as before has the same live handles. -/
theorem undone_of_object_eq {r r' : Rationed Store} (hs : r.inner.objects.WellFormed)
    (hs' : r'.inner.objects.WellFormed) (hobjects : ∀ k, r'.inner.object k = r.inner.object k) :
    o.Undone r r' := by
  have hlive : ∀ k, k ∈ r'.inner.liveHandles ↔ k ∈ r.inner.liveHandles := by
    intro k
    rw [Store.mem_liveHandles hs', Store.mem_liveHandles hs, hobjects]
  refine ⟨hobjects, hlive, fun h between hallocate => ?_⟩
  rw [hlive]
  exact not_mem_liveHandles_of_allocate hs hallocate

/-- **A failure leaves the store inside as it was.** -/
theorem undone_of_placed {r r' : Rationed Store} {error : Error} (hs : r.inner.objects.WellFormed)
    (hplaced : o.Placed r (.error error) r') : o.Undone r r' := by
  cases hplaced with
  | noAllocation => exact undone_of_object_eq hs hs fun _ => rfl
  | refused => exact undone_of_object_eq hs hs fun _ => rfl
  | withdrawn hleft hi hrest hlt hdelete =>
    obtain ⟨hwf, hobjects⟩ := Store.object_of_insert_of_delete hs hi hdelete
    exact undone_of_object_eq hs hwf hobjects

/-- **New handles do not leak.** In any store that requests can lead to, behind any rations, an
object that can be built and is written under a new handle is stored there as a whole, and can be
read back, if the rations suffice and the store has room. Otherwise the transfer fails with the
error of the first request that failed; then the store inside is what it was before, and the handle
that was given out, if any, is dead. Lengths fit 64 bits, as in memory. -/
theorem fresh_handle_never_leaks {limit : Option Nat} {s₀ : Store}
    (hs : Store.ofLimit limit = .ok s₀) (requests : List Request) (ho : o.Built)
    (haddressable : Addressable (.object o.payload.metadata)) (allocations arguments : Option Nat) :
    let r : Rationed Store := ⟨(s₀.run requests).2, allocations, arguments⟩
    let (reply, r') := (o.put none).outcome r
    o.Placed r reply r' ∧
      ∃ made, (o.put none).outcome (⟨r, []⟩ : Recording (Rationed Store)) = (reply, ⟨r', made⟩) ∧
        match reply with
        | .error error => (replay r made).1 = some error ∧ o.Undone r r'
        | .ok h => (replay r made).1 = none ∧ r'.inner.object h = .ok (o.stored none) ∧
            Transferred o none r.inner h r'.inner := by
  intro r
  have hwf : r.inner.objects.WellFormed := (Store.sound_run hs requests).advance.wellFormed
  have hplaced : o.Placed r ((o.put none).outcome r).1 ((o.put none).outcome r).2 :=
    placed_put allocations arguments hwf ho.lawful haddressable
  -- the record tells which request failed first, and the ways of ending what is left behind
  obtain ⟨made, hmade, hreplay⟩ := o.reportsFirst_put r []
  rcases houtcome : (o.put none).outcome r with ⟨error | h, r'⟩
  · rw [houtcome] at hplaced hmade hreplay
    exact ⟨hplaced, made, hmade, congrArg Prod.fst hreplay, undone_of_placed hwf hplaced⟩
  · rw [houtcome] at hplaced hmade hreplay
    refine ⟨hplaced, made, hmade, congrArg Prod.fst hreplay, ?_⟩
    cases hplaced with
    | kept hleft hi hcovers =>
      have hempty := (Store.object_insert hwf hi).2 h
      rw [if_pos rfl] at hempty
      exact ⟨object_withObject_self hempty _, transferred_new hwf ho.lawful haddressable hi⟩

/-- A command with two arguments for a store with room for one more object, when one argument is
left. -/
theorem fresh_handle_never_leaks_command :
    let requests : List Request := [.allocateData]
    let o : Object := .command ⟨⟨"lamp", by decide⟩, ⟨"switch", by decide⟩, .ofArgs [[1], [2]]⟩
    ∃ s₀, Store.ofLimit (some 2) = .ok s₀ ∧ o.Built ∧ Addressable (.object o.payload.metadata) ∧
      let r : Rationed Store := ⟨(s₀.run requests).2, none, some 1⟩
      let (reply, r') := (o.put none).outcome r
      reply = .error (.allocationFailed "injected push failure") ∧ o.Undone r r' ∧
        ∃ between, (o.allocate : Session (Rationed Store) Handle).outcome r =
            (.ok 4294967297, between) ∧
          4294967297 ∉ r'.inner.liveHandles := by
  intro requests o
  have hs : Store.ofLimit (some 2) = .ok { Store.empty with limit := some 2 } := rfl
  have ho : o.Built := .ofArgs _
  have haddressable : Addressable (.object o.payload.metadata) := by decide
  refine ⟨_, hs, ho, haddressable, ?_⟩
  intro r
  have hreply : failure? ((o.put none).outcome r).1 = some noArgument := by decide +kernel
  have hgiven : ((o.allocate : Session (Rationed Store) Handle).outcome r).1.toOption =
      some 4294967297 := by decide +kernel
  have h := fresh_handle_never_leaks hs requests ho haddressable none (some 1)
  rcases houtcome : (o.put none).outcome r with ⟨error | k, r'⟩
  · rcases hallocate : (o.allocate : Session (Rationed Store) Handle).outcome r with
      ⟨_ | k, between⟩
    · simp [hallocate, Except.toOption] at hgiven
    · rw [houtcome] at hreply
      rw [hallocate] at hgiven
      cases hreply
      cases hgiven
      dsimp only at h
      rw [houtcome] at h
      obtain ⟨-, made, -, -, hundone⟩ := h
      exact ⟨rfl, hundone, between, rfl, hundone.dead _ _ hallocate⟩
  · simp [houtcome, failure?] at hreply

end Object

end Parcel
