import Parcel.Proofs.Exchange.Rationed

/-!
# Writing over an object

An object that is written under a live handle replaces the old one step by step: the old one is made
empty, then the metadata is written, then the arguments one by one. If the holder gives out on the
way, nothing is put back: the handle is left with the metadata of the new object and the front of
its arguments. A new handle is given back in such a case, an old one is not.

## Main definitions

* `Object.Overwritten`: how writing over an object can end

## Main results

* `Object.overwritten_put`: these are all the ways it can end
* `Object.overwrites_can_be_cut_short`: the same in every store that requests can lead to
* `Object.overwrite_leaves_front`: an object that is neither the old one nor the new one
-/

namespace Parcel

open Json Rationed

/-! ## The frame -/

/-- No handle becomes live or dead if an object is replaced. -/
theorem Store.mem_liveHandles_withObject {s : Store} {h k : Handle} {object : StoredObject}
    (hs : s.objects.WellFormed) :
    k ∈ (s.withObject h object).liveHandles ↔ k ∈ s.liveHandles := by
  rw [mem_liveHandles (hs.update h object), mem_liveHandles hs, object_withObject]
  split
  · next hk =>
    rw [hk]
    cases s.object h <;> simp [Except.map]
  · rfl

/-! ## Payloads -/

variable {s : Store} {old : StoredObject} {p : Payload} {h : Handle} {o : Object}
  {allocations arguments : Option Nat} {left : Nat}

theorem outcome_ask_clear_rationed (allocations arguments : Option Nat)
    (hold : s.object h = .ok old) :
    (ask (.clear h) : Session (Rationed Store) Unit).outcome ⟨s, allocations, arguments⟩ =
      (.ok (), ⟨s.withObject h (.empty old.names), allocations, arguments⟩) :=
  outcome_ask_forward rfl (outcome_ask_clear hold)

/-- A payload that the ration covers is written in the place of the old object. -/
theorem Payload.rewrite_of_covers (hp : p.Lawful) (haddressable : Addressable (.object p.metadata))
    (hold : s.object h = .ok old) (hcovers : Covers arguments p.args.length) :
    (p.write h).outcome
        (⟨s.withObject h (.empty old.names), allocations, arguments⟩ : Rationed Store) =
      (.ok (), ⟨s.withObject h ⟨Entries.encode p.metadata, p.args, old.names⟩, allocations,
        arguments.map (· - p.args.length)⟩) := by
  rw [Payload.write_of_covers hp haddressable (object_withObject_self hold _) hcovers,
    Store.withObject_withObject]

/-- A payload that exceeds the ration leaves its front in the place of the old object. -/
theorem Payload.rewrite_of_lt (hp : p.Lawful) (haddressable : Addressable (.object p.metadata))
    (hold : s.object h = .ok old) (hlt : left < p.args.length) :
    (p.write h).outcome
        (⟨s.withObject h (.empty old.names), allocations, some left⟩ : Rationed Store) =
      (.error noArgument, ⟨s.withObject h ⟨Entries.encode p.metadata, p.args.take left, old.names⟩,
        allocations, some 0⟩) := by
  rw [Payload.write_of_lt hp haddressable (object_withObject_self hold _) hlt,
    Store.withObject_withObject]

theorem outcome_requireCommand_rationed (allocations arguments : Option Nat)
    (hold : s.object h = .ok old) :
    (requireCommand h : Session (Rationed Store) Unit).outcome ⟨s, allocations, arguments⟩ =
      (match old.names with
        | none => .error (.handleMismatch h .command)
        | some _ => .ok (), ⟨s, allocations, arguments⟩) := by
  rw [requireCommand, Session.outcome_bind_of_ok (outcome_ask_forward rfl (outcome_ask_kind hold))]
  cases hnames : old.names <;> simp [StoredObject.kind, hnames]

/-! ## Objects -/

namespace Object

/-- **How writing over an object ends** that is live under the handle `h`. -/
inductive Overwritten (o : Object) (h : Handle) (old : StoredObject) (r : Rationed Store) :
    Except Error Handle → Rationed Store → Prop
  /-- A command is not written over data, which stays as it was. -/
  | refused (ho : o.kind = .command) (hdata : old.kind = .data) :
      Overwritten o h old r (.error (.handleMismatch h .command)) r
  /-- The ration of arguments is used up: the metadata is the new one, and of the arguments only the
  first ones are there. -/
  | cutShort {left : Nat} (hkind : o.kind = .command → old.kind = .command)
      (hleft : r.arguments = some left) (hlt : left < o.payload.args.length) :
      Overwritten o h old r (.error noArgument)
        ⟨r.inner.withObject h
          ⟨Entries.encode o.payload.metadata, o.payload.args.take left, old.names⟩,
          r.allocations, some 0⟩
  /-- The ration covers all arguments. -/
  | completed (hkind : o.kind = .command → old.kind = .command)
      (hcovers : Covers r.arguments o.payload.args.length) :
      Overwritten o h old r (.ok h)
        ⟨r.inner.withObject h (o.stored old.names), r.allocations,
          r.arguments.map (· - o.payload.args.length)⟩

/-- **Data is written over any object**, whole or in part. -/
theorem overwritten_data (hp : p.Lawful) (haddressable : Addressable (.object p.metadata))
    (hold : s.object h = .ok old) :
    let outcome := (p.put (some h)).outcome (⟨s, allocations, arguments⟩ : Rationed Store)
    (Object.data p).Overwritten h old ⟨s, allocations, arguments⟩ outcome.1 outcome.2 := by
  have hclear := outcome_ask_clear_rationed allocations arguments hold
  -- the ration covers all arguments, or runs out at one of them
  rcases covers_or_exists_lt arguments p.args.length with hcovers | ⟨left, rfl, hlt⟩
  · have hput : (p.put (some h)).outcome (⟨s, allocations, arguments⟩ : Rationed Store) = _ :=
      (Session.outcome_bind_of_ok hclear).trans
        (Session.outcome_bind_of_ok (Payload.rewrite_of_covers hp haddressable hold hcovers))
    rw [hput]
    exact .completed nofun hcovers
  · have hput : (p.put (some h)).outcome (⟨s, allocations, some left⟩ : Rationed Store) = _ :=
      (Session.outcome_bind_of_ok hclear).trans
        (Session.outcome_bind_of_error (Payload.rewrite_of_lt hp haddressable hold hlt))
    rw [hput]
    exact .cutShort nofun rfl hlt

/-- **A command is written over a command**, whole or in part, and over nothing else. -/
theorem overwritten_command {c : Command} (hp : c.payload.Lawful)
    (haddressable : Addressable (.object c.payload.metadata)) (hold : s.object h = .ok old) :
    let outcome := (c.put (some h)).outcome (⟨s, allocations, arguments⟩ : Rationed Store)
    (Object.command c).Overwritten h old ⟨s, allocations, arguments⟩ outcome.1 outcome.2 := by
  have hrequire := outcome_requireCommand_rationed allocations arguments hold
  -- what has no names is refused before it is cleared
  cases hnames : old.names with
  | none =>
    rw [hnames] at hrequire
    have hput : (c.put (some h)).outcome (⟨s, allocations, arguments⟩ : Rationed Store) = _ :=
      Session.outcome_bind_of_error hrequire
    rw [hput]
    exact .refused rfl (by simp [StoredObject.kind, hnames])
  | some names =>
    rw [hnames] at hrequire
    have hkind : old.kind = .command := by simp [StoredObject.kind, hnames]
    have hclear := outcome_ask_clear_rationed allocations arguments hold
    rcases covers_or_exists_lt arguments c.payload.args.length with hcovers | ⟨left, rfl, hlt⟩
    · -- the names come last, and take from neither ration
      have hset := outcome_ask_setNames
        (object_withObject_self hold ⟨Entries.encode c.payload.metadata, c.payload.args, old.names⟩)
        hnames c.interface c.operation
      rw [Store.withObject_withObject] at hset
      have hput : (c.put (some h)).outcome (⟨s, allocations, arguments⟩ : Rationed Store) = _ :=
        (Session.outcome_bind_of_ok hrequire).trans <| (Session.outcome_bind_of_ok hclear).trans <|
          (Session.outcome_bind_of_ok
            (Payload.rewrite_of_covers hp haddressable hold hcovers)).trans <|
            Session.outcome_bind_of_ok (outcome_ask_forward rfl hset)
      rw [hput]
      exact .completed (fun _ => hkind) hcovers
    · have hput : (c.put (some h)).outcome (⟨s, allocations, some left⟩ : Rationed Store) = _ :=
        (Session.outcome_bind_of_ok hrequire).trans <| (Session.outcome_bind_of_ok hclear).trans <|
          Session.outcome_bind_of_error (Payload.rewrite_of_lt hp haddressable hold hlt)
      rw [hput]
      exact .cutShort (fun _ => hkind) rfl hlt

/-- **Writing over an object** ends in one of the three ways. -/
theorem overwritten_put (allocations arguments : Option Nat) (hp : o.payload.Lawful)
    (haddressable : Addressable (.object o.payload.metadata)) (hold : s.object h = .ok old) :
    let outcome := (o.put (some h)).outcome (⟨s, allocations, arguments⟩ : Rationed Store)
    o.Overwritten h old ⟨s, allocations, arguments⟩ outcome.1 outcome.2 := by
  cases o with
  | data p => exact overwritten_data hp haddressable hold
  | command c => exact overwritten_command hp haddressable hold

/-- No other object changes, and no handle becomes live or dead. -/
theorem Overwritten.frame {r r' : Rationed Store} {reply : Except Error Handle}
    (hs : r.inner.objects.WellFormed) (hover : o.Overwritten h old r reply r') :
    (∀ k, k ≠ h → r'.inner.object k = r.inner.object k) ∧
      ∀ k, k ∈ r'.inner.liveHandles ↔ k ∈ r.inner.liveHandles := by
  cases hover with
  | refused => exact ⟨fun _ _ => rfl, fun _ => .rfl⟩
  | cutShort | completed =>
    refine ⟨fun k hk => ?_, fun k => Store.mem_liveHandles_withObject hs⟩
    rw [Store.object_withObject, if_neg hk]

/-- **Overwriting can be cut short.** In any store that requests can lead to, behind any rations, an
object that can be built is written over that of a live handle. If it is a command and the handle is
one of data, it is refused and nothing changes. Otherwise it takes the place of the old object if
the ration covers all of its arguments; if not, the handle is left with the metadata of the new
object, the names of the old one and as many arguments as the ration had left. In any case no other
object changes, and no handle becomes live or dead. Lengths fit 64 bits, as in memory. -/
theorem overwrites_can_be_cut_short {limit : Option Nat} {s₀ : Store}
    (hs : Store.ofLimit limit = .ok s₀) (requests : List Request) (ho : o.Built)
    (haddressable : Addressable (.object o.payload.metadata))
    (hlive : h ∈ (s₀.run requests).2.liveHandles) (allocations arguments : Option Nat) :
    let r : Rationed Store := ⟨(s₀.run requests).2, allocations, arguments⟩
    let (reply, r') := (o.put (some h)).outcome r
    (∃ old, r.inner.object h = .ok old ∧ o.Overwritten h old r reply r') ∧
      (∀ k, k ≠ h → r'.inner.object k = r.inner.object k) ∧
      ∀ k, k ∈ r'.inner.liveHandles ↔ k ∈ r.inner.liveHandles := by
  have hwf := (Store.sound_run hs requests).advance.wellFormed
  obtain ⟨old, hold⟩ := (Store.mem_liveHandles hwf).1 hlive
  have hover := overwritten_put allocations arguments ho.lawful haddressable hold
  exact ⟨⟨old, hold, hover⟩, hover.frame hwf⟩

/-- Data with two arguments, written over a command whatever the ration of arguments is. -/
theorem overwrites_can_be_cut_short_command :
    let s := (Store.empty.run [.allocateCommand "lamp" "switch", .push 1 [1]]).2
    let o : Object := .data (.ofArgs [[2], [3]])
    Store.ofLimit none = .ok Store.empty ∧ o.Built ∧ 1 ∈ s.liveHandles ∧
      ∀ arguments, ∃ old, s.object 1 = .ok old ∧
        let outcome := (o.put (some 1)).outcome (⟨s, none, arguments⟩ : Rationed Store)
        o.Overwritten 1 old ⟨s, none, arguments⟩ outcome.1 outcome.2 := by
  intro s o
  have ho : o.Built := .ofArgs _
  have haddressable : Addressable (.object o.payload.metadata) := by decide
  have hlive : 1 ∈ s.liveHandles := by decide +kernel
  refine ⟨Store.ofLimit_none, ho, hlive, fun arguments => ?_⟩
  have hends :=
    overwrites_can_be_cut_short Store.ofLimit_none _ ho haddressable hlive none arguments
  dsimp only at hends ⊢
  -- The outcome is not to be run.
  generalize (o.put (some 1)).outcome (⟨s, none, arguments⟩ : Rationed Store) = ends at hends ⊢
  exact hends.1

/-- **An overwrite that is cut short** leaves an object that is neither the old one nor the new one,
and it can be read. -/
theorem overwrite_leaves_front :
    let s := (Store.empty.run [.allocateData, .push 1 [1]]).2
    let o : Object := .data ⟨[[2], [3]], [("new", .integer 2)]⟩
    let outcome := (o.put (some 1)).outcome (⟨s, none, some 1⟩ : Rationed Store)
    Store.ofLimit none = .ok Store.empty ∧ 1 ∈ s.liveHandles ∧
      outcome.1 = .error (.allocationFailed "injected push failure") ∧
      s.object 1 = .ok ⟨emptyEncoding, [[1]], none⟩ ∧
      outcome.2.inner.object 1 = .ok ⟨Entries.encode [("new", .integer 2)], [[2]], none⟩ ∧
      outcome.2.inner.object 1 ≠ s.object 1 ∧
      (Payload.fetch 256 1).outcome outcome.2.inner =
        (.ok ⟨[[2]], [("new", .integer 2)]⟩, outcome.2.inner) := by
  intro s o outcome
  have hlawful : o.payload.Lawful := by decide
  have haddressable : Addressable (.object o.payload.metadata) := by decide
  have hold : s.object 1 = .ok ⟨emptyEncoding, [[1]], none⟩ := by
    rw [Store.object_eq_ok_iff]
    decide +kernel
  -- the ration is one argument, so the second is refused
  have hput : outcome = _ :=
    (Session.outcome_bind_of_ok (outcome_ask_clear_rationed _ _ hold)).trans
    (Session.outcome_bind_of_error
      (Payload.rewrite_of_lt hlawful haddressable hold (by decide)))
  have hfront : outcome.2.inner.object 1 =
      .ok ⟨Entries.encode [("new", .integer 2)], [[2]], none⟩ := by
    rw [hput]
    exact object_withObject_self hold _
  refine ⟨rfl, by decide +kernel, by rw [hput]; rfl, hold, hfront, by simp [hfront, hold], ?_⟩
  have hdecoded : Entries.decode (Entries.encode [("new", .integer 2)]) = .ok _ :=
    Entries.decode_encode hlawful.proper haddressable hlawful.check
  rw [Payload.fetch_store hfront, StoredObject.payload, hdecoded]
  simp [Except.map, Entries.canonical, Entries.sorted, canonicalEntries, canonical]

end Object

end Parcel
