import Parcel.Proofs.Metadata.RoundTrip
import Parcel.Proofs.Store.InPlace
import Parcel.Proofs.Table.History

/-!
# Runs of a store

A request that fails leaves the store alone. One that is answered leaves it alone too, or does one
of three things to it: it gives out a handle for an object without content, replaces the object of a
live handle by one of the same kind, or takes back a handle. What is stored was checked before, so
every object stays readable.

## Main definitions

* `StoredObject.Readable`: objects whose metadata decodes and whose names are identifiers
* `Request.allotment`, `Request.release`: the handle that a request gives out, with its kind, and
  the one that it takes back
* `Request.handle?`: the handle that a request is about
* `Store.run`: one request after the other
* `Store.Edit`: what a request can do to the object of a live handle
* `Store.Transition`: what a request does to a store, with its reply
* `Store.Step`: what a store can become in one step
* `Store.Sound`: what holds of a store after a run

## Main results

* `transition_perform`, `step_perform`: what every request does
* `Step.sound`, `sound_run`: a step keeps a store sound, and so does a run
-/

namespace Parcel

open Table

/-- **Readable objects**: the metadata decodes, and the names are identifiers. -/
structure StoredObject.Readable (object : StoredObject) : Prop where
  decodes : ∃ m, Entries.decode object.metadata = .ok m
  names : ∀ names, object.names = some names →
    isIdentifier names.1 = true ∧ isIdentifier names.2 = true

theorem Entries.decode_emptyEncoding : decode emptyEncoding = .ok [] := by
  have haddressable : Json.Addressable (.object []) := by decide
  rw [← encode_nil, decode_encode Json.proper_object_nil haddressable rfl]
  simp [canonical, sorted, Json.canonicalEntries]

theorem StoredObject.readable_empty {names : Option (String × String)}
    (h : ∀ found, names = some found → isIdentifier found.1 = true ∧ isIdentifier found.2 = true) :
    (empty names).Readable :=
  ⟨⟨[], Entries.decode_emptyEncoding⟩, h⟩

/-- The handle that a request gives out, with the kind of its object. -/
def Request.allotment : (request : Request) → Except Error request.Reply → Option (Handle × Kind)
  | .allocateData, .ok h => some (h, .data)
  | .allocateCommand _ _, .ok h => some (h, .command)
  | _, _ => none

namespace Request

/-- The handle that a request is about. -/
def handle? : Request → Option Handle
  | .allocateData => none
  | .allocateCommand _ _ => none
  | .kind h => some h
  | .clear h => some h
  | .setMetadata h _ => some h
  | .metadata h _ => some h
  | .push h _ => some h
  | .arg h _ _ => some h
  | .argCount h => some h
  | .setNames h _ _ => some h
  | .names h => some h
  | .delete h => some h

/-- The handle that a request takes back. -/
def release : (request : Request) → Except Error request.Reply → Option Handle
  | .delete h, .ok _ => some h
  | _, _ => none

theorem allotment_error (request : Request) (error : Error) :
    request.allotment (.error error) = none := by
  cases request <;> rfl

theorem release_error (request : Request) (error : Error) :
    request.release (.error error) = none := by
  cases request <;> rfl

end Request

namespace Store

variable {s s' : Store} {h k : Handle} {object old : StoredObject} {request : Request}
  {reply : Except Error request.Reply}

/-- The handles that requests give out, in order and with their kinds, and the store afterwards. -/
def run (s : Store) : List Request → List (Handle × Kind) × Store
  | [] => ([], s)
  | request :: rest =>
    let (reply, changed) := s.perform request
    let (later, final) := run changed rest
    ((request.allotment reply).toList ++ later, final)

/-- A run goes on from where an earlier one ended. -/
theorem run_append (s : Store) (first later : List Request) :
    (s.run (first ++ later)).2 = ((s.run first).2.run later).2 := by
  induction first generalizing s with
  | nil => rfl
  | cons request rest ih => exact ih (s.perform request).2

/-! ## Objects -/

/-- A handle that is given out comes from the table. -/
theorem insert_eq_ok (hi : s.insert object = .ok (h, s')) :
    ∃ objects, s.objects.insert object = some (h, objects) ∧
      s' = { s with objects := objects } := by
  rw [Store.insert] at hi
  split at hi
  · contradiction
  · split at hi
    · next h objects hinsert =>
      cases hi
      exact ⟨objects, hinsert, rfl⟩
    · contradiction

/-- A new object is found under its handle, which was dead, and no other handle's object changes. -/
theorem object_insert (hs : s.objects.WellFormed) (hi : s.insert object = .ok (h, s')) :
    (∀ x, s.object h ≠ .ok x) ∧
      ∀ k, s'.object k = if k = h then .ok object else s.object k := by
  obtain ⟨objects, hinsert, rfl⟩ := insert_eq_ok hi
  have hget := get?_insert hs hinsert
  constructor
  · intro x hx
    rw [object_eq_ok_iff, hget.1] at hx
    contradiction
  · intro k
    by_cases hk : k = h
    · simp [Store.object, hget.2, hk]
    · simp [Store.object, hget.2, hk]

/-- A handle that is deleted comes from the table. -/
theorem delete_eq_ok (hdelete : s.delete h = .ok s') :
    ∃ old objects, s.objects.remove h = some (old, objects) ∧
      s' = { s with objects := objects } := by
  rw [delete] at hdelete
  split at hdelete
  · next old objects hremove =>
    cases hdelete
    exact ⟨old, objects, hremove, rfl⟩
  · contradiction

theorem exists_delete {stored : StoredObject} (hstored : s.object h = .ok stored) :
    ∃ s', s.delete h = .ok s' := by
  have hget := object_eq_ok_iff.1 hstored
  cases hremove : s.objects.remove h with
  | none => simp [Table.get?_of_remove hremove] at hget
  | some found => exact ⟨_, by rw [delete, hremove]⟩

theorem get?_delete (hdelete : s.delete h = .ok s') (k : Handle) :
    s'.objects.get? k = if k = h then none else s.objects.get? k := by
  obtain ⟨old, objects, hremove, rfl⟩ := delete_eq_ok hdelete
  exact (Table.get?_remove hremove).2 k

/-! ## Edits -/

/-- **Edits** of the object of a live handle: another one of the same kind takes its place, and can
be read if the old one could. -/
inductive Edit (s : Store) (h : Handle) : Store → Prop
  | intro {old new : StoredObject} (hlive : s.objects.get? h = some old)
      (hkind : new.kind = old.kind) (hreadable : old.Readable → new.Readable) :
      Edit s h (s.withObject h new)

theorem edit_clear (hc : s.clear h = .ok s') : s.Edit h s' := by
  unfold clear at hc
  cases hobject : s.object h with
  | error error => simp [hobject, Except.map] at hc
  | ok old =>
    simp only [hobject, Except.map, Except.ok.injEq] at hc
    subst hc
    exact .intro (object_eq_ok_iff.1 hobject) rfl fun hold =>
      StoredObject.readable_empty hold.names

theorem edit_setMetadata {blob : Bytes} (hm : s.setMetadata h blob = .ok s') : s.Edit h s' := by
  unfold setMetadata at hm
  split at hm
  · contradiction
  · next old hobject =>
    split at hm
    · contradiction
    · next m hdecode =>
      cases hm
      exact .intro (object_eq_ok_iff.1 hobject) rfl fun hold => ⟨⟨m, hdecode⟩, hold.names⟩

theorem edit_push {arg : Bytes} (hp : s.push h arg = .ok s') : s.Edit h s' := by
  unfold push at hp
  cases hobject : s.object h with
  | error error => simp [hobject, Except.map] at hp
  | ok old =>
    simp only [hobject, Except.map, Except.ok.injEq] at hp
    subst hp
    exact .intro (object_eq_ok_iff.1 hobject) rfl fun hold => ⟨hold.decodes, hold.names⟩

theorem edit_setNames {interface operation : String}
    (hn : s.setNames h interface operation = .ok s') : s.Edit h s' := by
  unfold setNames at hn
  split at hn
  · contradiction
  · next hcheck =>
    split at hn
    · contradiction
    · next old hobject =>
      split at hn
      · next names hnames =>
        cases hn
        refine .intro (object_eq_ok_iff.1 hobject) ?_ fun hold => ⟨hold.decodes, ?_⟩
        · simp [StoredObject.kind, hnames]
        · rintro found ⟨⟩
          exact checkNames_eq_ok_iff.1 hcheck
      · contradiction

/-! ## Transitions -/

/-- **What a request does** to a store, with its reply. -/
inductive Transition (s : Store) (request : Request) : Except Error request.Reply → Store → Prop
  | failed (error : Error) : Transition s request (.error error) s
  | read {a : request.Reply} (hissued : request.allotment (.ok a) = none)
      (hreleased : request.release (.ok a) = none) : Transition s request (.ok a) s
  | issued {a : request.Reply} {h : Handle} {object : StoredObject} {s' : Store}
      (hobject : object.Readable) (hinsert : s.insert object = .ok (h, s'))
      (hissued : request.allotment (.ok a) = some (h, object.kind))
      (hreleased : request.release (.ok a) = none) : Transition s request (.ok a) s'
  | edited {a : request.Reply} {h : Handle} {s' : Store} (hedit : s.Edit h s')
      (hrequest : request.handle? = some h) (hissued : request.allotment (.ok a) = none)
      (hreleased : request.release (.ok a) = none) : Transition s request (.ok a) s'
  | released {a : request.Reply} {h : Handle} {s' : Store} (hdelete : s.delete h = .ok s')
      (hrequest : request.handle? = some h) (hissued : request.allotment (.ok a) = none)
      (hreleased : request.release (.ok a) = some h) : Transition s request (.ok a) s'

/-- **Every request** makes a transition. -/
theorem transition_perform (s : Store) (request : Request) :
    Transition s request (s.perform request).1 (s.perform request).2 := by
  cases request with
  | allocateData =>
    rw [perform_allocateData]
    cases hi : s.insert (.empty none) with
    | error error => exact .failed error
    | ok found => exact .issued (StoredObject.readable_empty (by simp)) hi rfl rfl
  | allocateCommand interface operation =>
    rw [perform_allocateCommand, insertCommand]
    cases hcheck : checkNames interface operation with
    | error error => exact .failed error
    | ok =>
      cases hi : s.insert (.empty (some (interface, operation))) with
      | error error => exact .failed error
      | ok found =>
        refine .issued (StoredObject.readable_empty ?_) hi rfl rfl
        rintro found ⟨⟩
        exact checkNames_eq_ok_iff.1 hcheck
  | clear h =>
    rw [perform_clear]
    cases hc : s.clear h with
    | error error => exact .failed error
    | ok s' => exact .edited (edit_clear hc) rfl rfl rfl
  | setMetadata h blob =>
    rw [perform_setMetadata]
    cases hm : s.setMetadata h blob with
    | error error => exact .failed error
    | ok s' => exact .edited (edit_setMetadata hm) rfl rfl rfl
  | push h arg =>
    rw [perform_push]
    cases hp : s.push h arg with
    | error error => exact .failed error
    | ok s' => exact .edited (edit_push hp) rfl rfl rfl
  | setNames h interface operation =>
    rw [perform_setNames]
    cases hn : s.setNames h interface operation with
    | error error => exact .failed error
    | ok s' => exact .edited (edit_setNames hn) rfl rfl rfl
  | delete h =>
    rw [perform_delete]
    cases hd : s.delete h with
    | error error => exact .failed error
    | ok s' => exact .released hd rfl rfl rfl
  | names h =>
    rw [perform_names]
    cases s.names h with
    | error error => exact .failed error
    | ok names => exact .read rfl rfl
  | kind h | metadata h | arg h | argCount h =>
    simp only [perform_kind, perform_metadata, perform_arg, perform_argCount]
    cases s.object h with
    | error error => exact .failed error
    | ok object => exact .read rfl rfl

/-! ## Steps -/

/-- **A step** of a store, with the handle that it gives out. -/
inductive Step (s : Store) : Option (Handle × Kind) → Store → Prop
  | unchanged : Step s none s
  | allotted {object : StoredObject} {h : Handle} {objects : Table StoredObject}
      (hobject : object.Readable) (hinsert : s.objects.insert object = some (h, objects)) :
      Step s (some (h, object.kind)) { s with objects := objects }
  | replaced {h : Handle} {old new : StoredObject} (hlive : s.objects.get? h = some old)
      (hkind : new.kind = old.kind) (hreadable : old.Readable → new.Readable) :
      Step s none (s.withObject h new)
  | deleted {h : Handle} {old : StoredObject} {objects : Table StoredObject}
      (hremove : s.objects.remove h = some (old, objects)) :
      Step s none { s with objects := objects }

/-- What a request does is a step. -/
theorem Transition.step (ht : Transition s request reply s') :
    Step s (request.allotment reply) s' := by
  cases ht with
  | failed error =>
    rw [request.allotment_error]
    exact .unchanged
  | read hissued =>
    rw [hissued]
    exact .unchanged
  | issued hobject hinsert hissued =>
    obtain ⟨objects, htable, rfl⟩ := insert_eq_ok hinsert
    rw [hissued]
    exact .allotted hobject htable
  | edited hedit hrequest hissued =>
    obtain ⟨hlive, hkind, hreadable⟩ := hedit
    rw [hissued]
    exact .replaced hlive hkind hreadable
  | released hdelete hrequest hissued =>
    obtain ⟨old, objects, hremove, rfl⟩ := delete_eq_ok hdelete
    rw [hissued]
    exact .deleted hremove

/-- **A request is a step.** -/
theorem step_perform (s : Store) (request : Request) :
    Step s (request.allotment (s.perform request).1) (s.perform request).2 :=
  (transition_perform s request).step

/-! ## Sound stores -/

/-- **Sound stores**, after the given handles were given out: each of them was given out once, every
live handle is one of them and has the kind it was given out with, and every object is readable. -/
structure Sound (allotted : List (Handle × Kind)) (s : Store) : Prop where
  advance : Table.Advance .empty (allotted.map Prod.fst) s.objects
  kinds : ∀ h object, s.objects.get? h = some object → (h, object.kind) ∈ allotted
  readable : ∀ h object, s.objects.get? h = some object → object.Readable

variable {allotted : List (Handle × Kind)}

theorem objects_ofLimit {limit : Option Nat} (hs : ofLimit limit = .ok s) : s.objects = .empty := by
  unfold ofLimit at hs
  split at hs
  · contradiction
  · cases hs
    rfl

theorem sound_ofLimit {limit : Option Nat} (hs : ofLimit limit = .ok s) : Sound [] s := by
  have hobjects := objects_ofLimit hs
  refine ⟨by rw [hobjects]; exact .refl .empty, ?_, ?_⟩
  · simp [hobjects]
  · simp [hobjects]

/-- **A step keeps a store sound.** -/
theorem Step.sound {issued : Option (Handle × Kind)} (hs : Sound allotted s)
    (hstep : Step s issued s') : Sound (allotted ++ issued.toList) s' := by
  -- an object found afterwards is the one the step wrote, or was found before
  have hwf := hs.advance.wellFormed
  cases hstep with
  | unchanged => simpa using hs
  | @allotted object h objects hobject hinsert =>
    -- the handle is new to all that were given out, and its object is without content
    have hget := (get?_insert hwf hinsert).2
    refine ⟨?_, ?_, ?_⟩
    · simpa using hs.advance.trans (insert_advance hwf hinsert)
    · intro k x hx
      rw [hget] at hx
      split at hx
      · next hk =>
        cases hx
        simp [hk]
      · exact List.mem_append_left _ (hs.kinds k x hx)
    · intro k x hx
      rw [hget] at hx
      split at hx
      · cases hx
        exact hobject
      · exact hs.readable k x hx
  | @replaced h old new hlive hkind hreadable =>
    rw [Option.toList_none, List.append_nil]
    refine ⟨?_, ?_, ?_⟩
    · simpa [withObject] using hs.advance.trans (update_advance hwf h new)
    · intro k x hx
      simp only [withObject, get?_update, hlive] at hx
      split at hx
      · next hk =>
        cases hx
        rw [hk, hkind]
        exact hs.kinds h old hlive
      · exact hs.kinds k x hx
    · intro k x hx
      simp only [withObject, get?_update, hlive] at hx
      split at hx
      · cases hx
        exact hreadable (hs.readable h old hlive)
      · exact hs.readable k x hx
  | @deleted h old objects hremove =>
    -- what is still found was found before
    have hget := (get?_remove hremove).2
    rw [Option.toList_none, List.append_nil]
    refine ⟨?_, ?_, ?_⟩
    · simpa using hs.advance.trans (remove_advance hwf hremove)
    · intro k x hx
      rw [hget] at hx
      split at hx
      · contradiction
      · exact hs.kinds k x hx
    · intro k x hx
      rw [hget] at hx
      split at hx
      · contradiction
      · exact hs.readable k x hx

/-- **A run keeps a store sound.** -/
theorem Sound.run (hs : Sound allotted s) (requests : List Request) :
    Sound (allotted ++ (s.run requests).1) (s.run requests).2 := by
  induction requests generalizing s allotted with
  | nil => simpa [Store.run] using hs
  | cons request rest ih =>
    rw [Store.run]
    simpa using ih ((step_perform s request).sound hs)

/-- **What every run leaves behind** is sound. -/
theorem sound_run {limit : Option Nat} (hs : ofLimit limit = .ok s) (requests : List Request) :
    Sound (s.run requests).1 (s.run requests).2 := by
  simpa using (sound_ofLimit hs).run requests

/-! ## Live handles -/

/-- The live handles are those with an object. -/
theorem mem_liveHandles (hs : s.objects.WellFormed) :
    h ∈ s.liveHandles ↔ ∃ object, s.object h = .ok object := by
  simp only [liveHandles, List.mem_map, Prod.exists, object_eq_ok_iff]
  constructor
  · rintro ⟨h, object, hmem, rfl⟩
    exact ⟨object, (mem_entries hs).1 hmem⟩
  · rintro ⟨object, hget⟩
    exact ⟨h, object, (mem_entries hs).2 hget, rfl⟩

/-- A live handle was given out with the kind of its object, and with no other. -/
theorem Sound.kind_unique (hs : Sound allotted s) (hobject : s.object h = .ok object) :
    (h, object.kind) ∈ allotted ∧ ∀ kind, (h, kind) ∈ allotted → kind = object.kind := by
  have hmem := hs.kinds h object (object_eq_ok_iff.1 hobject)
  refine ⟨hmem, ?_⟩
  intro kind hkind
  -- both pairs are found under the handle, which was given out once
  have hfound := lookup_eq_some_of_mem hs.advance.nodup hmem
  rw [lookup_eq_some_of_mem hs.advance.nodup hkind] at hfound
  exact Option.some.inj hfound

end Store

end Parcel
