import Mathlib.Data.List.Forall2
import Parcel.Proofs.Boundary.Calls
import Parcel.Proofs.Table.FiniteMap

/-!
# Clients of the shared store are isolated

Several clients call the shared store in any order. As long as each of them uses only handles that
it was given, it cannot tell whether the others are there: it gets the answers that it gets when it
is alone. The handles it is given may be different ones, since slots are shared; so the answers
agree up to a renaming of handles, and so does the first line of a dump, which shows the handle.

The two runs are related by the pairs of handles that were given out for the same call. An object is
the same under both handles of a pair, because the calls of others are about handles of their own.

## Main definitions

* `Turn`, `Shared.turns`: calls of several clients, each with its answer
* `OwnHandles`: every client uses only handles that it was given
* `Call.Alike`: answers that agree up to a renaming of handles
* `Isolated`: the stores of the two runs, with the handles that were given out

## Main results

* `Call.alike_run`: a call about handles with the same object
* `Isolated.exists_rename`: the runs that go on from related stores
* `clients_are_isolated`: every client, among others and alone
-/

namespace Parcel

open Table

/-! ## Runs of several clients -/

/-- A call of a client with its answer. -/
structure Turn (ι : Type) where
  client : ι
  call : Call
  answer : Answer

/-- The handle that a turn brings, with the client that it is given to. -/
def Turn.issued {ι : Type} (turn : Turn ι) : Option (ι × Handle) :=
  turn.answer.issued.map fun h => (turn.client, h)

/-- Calls of several clients one after the other, with their answers, and the shared store
afterwards. -/
def Shared.turns {ι : Type} (shared : Shared) : List (ι × Call) → List (Turn ι) × Shared
  | [] => ([], shared)
  | (client, call) :: rest =>
    let (answer, changed) := call.run shared
    let (later, final) := changed.turns rest
    (⟨client, call, answer⟩ :: later, final)

/-- **Every client uses only handles that it was given**, live or not: those it owns at first, and
those that its own calls bring. -/
def OwnHandles {ι : Type} (owned : List (ι × Handle)) : List (Turn ι) → Prop
  | [] => True
  | turn :: rest =>
    (∀ h, turn.call.handle? = some h → (turn.client, h) ∈ owned) ∧
      OwnHandles (owned ++ turn.issued.toList) rest

/-! ## Answers up to a renaming of handles -/

/-- The same answer with the handle renamed that it brings. -/
def Answer.rename (rename : Handle → Handle) : Answer → Answer
  | .handle status written => .handle status (written.map rename)
  | answer => answer

/-- The same call with the handle renamed that it is about. -/
def Call.rename (rename : Handle → Handle) (call : Call) : Call :=
  match call.handle? with
  | some h => call.about (rename h)
  | none => call

/-- **Answers to a call that agree** up to a renaming of handles. -/
inductive Call.Alike (rename : Handle → Handle) : Call → Answer → Answer → Prop
  /-- A new handle is renamed. -/
  | issued {call : Call} (hcall : call.handle? = none) (answer : Answer) :
      Alike rename call answer (answer.rename rename)
  /-- Other answers are the same. -/
  | same {call : Call} {h : Handle} (hcall : call.handle? = some h) (answer : Answer) :
      Alike rename call answer answer
  /-- A dump shows the handle in its first line, and the lines behind it are the same. -/
  | dumped {h : Handle} {target : Target} (kind : Kind) (lines : String) :
      Alike rename (.dump h target) (.delivery (target.deliverText (kind.headline h ++ lines)))
        (.delivery (target.deliverText (kind.headline (rename h) ++ lines)))

/-- Turns that agree up to a renaming of handles: the calls are the same, and the answers agree. -/
def Turn.Alike {ι : Type} (rename : Handle → Handle) (turn turn' : Turn ι) : Prop :=
  turn'.call = turn.call.rename rename ∧ turn.call.Alike rename turn.answer turn'.answer

/-! ## Calls about the same object -/

variable {rename : Handle → Handle}

namespace Call

variable {call : Call} {s s' : Store} {h k : Handle} {stored : StoredObject}

/-- What a call about a live handle does is the same under every handle, and so is the answer, but
for the first line of a dump. -/
theorem alike_reply (rename : Handle → Handle) (hcall : call.handle? = some h)
    (stored : StoredObject) :
    call.Alike rename (call.reply h stored).1
        ((call.about (rename h)).reply (rename h) stored).1 ∧
      ((call.about (rename h)).reply (rename h) stored).2 = (call.reply h stored).2 := by
  cases call with
  | newData hasPlace => contradiction
  | newCommand interface operation hasPlace => contradiction
  | dump k target =>
    cases hcall
    refine ⟨?_, rfl⟩
    simp only [about, reply]
    cases Entries.decode stored.metadata with
    | error error => exact .same rfl _
    | ok m => exact .dumped _ _
  | _ => exact ⟨.same hcall _, rfl⟩

/-- **A call about handles with the same object**, or both without one, gets answers that agree, and
leaves the same object. -/
theorem alike_run (rename : Handle → Handle) (hcall : call.handle? = some h)
    (hobject : s.objects.get? h = s'.objects.get? (rename h)) :
    ∃ answer answer' t t', call.run (.ofStore s) = (answer, .ofStore t) ∧
      (call.about (rename h)).run (.ofStore s') = (answer', .ofStore t') ∧
      call.Alike rename answer answer' ∧ t.objects.get? h = t'.objects.get? (rename h) := by
  cases hget : s.objects.get? h with
  | none =>
    have hrun' := run_dead (handle?_about (k := rename h) hcall) (hobject.symm.trans hget)
    rw [missing_about] at hrun'
    exact ⟨_, _, s, s', run_dead hcall hget, hrun', .same hcall _, hobject⟩
  | some stored =>
    have hstored := Store.object_eq_ok_iff.2 hget
    have hstored' := Store.object_eq_ok_iff.2 (hobject.symm.trans hget)
    obtain ⟨halike, heffect⟩ := alike_reply rename hcall stored
    refine ⟨_, _, _, _, run_live hcall hstored, run_live (handle?_about hcall) hstored', halike, ?_⟩
    rw [Effect.get?_apply_self _ hstored, Effect.get?_apply_self _ hstored', heffect]

/-- Only the new name of the call's own handle makes a difference. -/
theorem Alike.congr {rename' : Handle → Handle} {answer answer' : Answer}
    (halike : call.Alike rename answer answer') (hcall : call.handle? = some h)
    (hrename : rename h = rename' h) : call.Alike rename' answer answer' := by
  cases halike with
  | issued hnone => simp [hnone] at hcall
  | same hcall => exact .same hcall _
  | dumped kind lines =>
    obtain rfl := Option.some.inj hcall
    rw [hrename]
    exact .dumped kind lines

/-- Every call answers, and nobody dies. -/
theorem exists_run (call : Call) (s : Store) :
    ∃ answer t, call.run (.ofStore s) = (answer, .ofStore t) := by
  cases hcall : call.handle? with
  | some h =>
    obtain ⟨answer, effect, hrun, -⟩ := run_about hcall s
    exact ⟨answer, _, hrun⟩
  | none =>
    rcases run_new hcall with ⟨status, hrun⟩ | ⟨names, hrun⟩
    · exact ⟨_, s, hrun s⟩
    · rw [hrun]
      rcases s.insert (.empty names) with error | ⟨h, t⟩
      · exact ⟨_, s, rfl⟩
      · exact ⟨_, t, rfl⟩

end Call

/-! ## Handles that were given out -/

namespace Store

variable {s t : Store} {h : Handle} {issued : List Handle} {object : StoredObject}

/-- **Stores without a bound that gave out the given handles**: there are no more slots than
that. -/
structure Given (issued : List Handle) (s : Store) : Prop where
  advance : Table.Advance .empty issued s.objects
  unbounded : s.limit = none
  size_le : s.objects.slots.size ≤ issued.length

theorem given_empty : Given [] empty := ⟨.refl .empty, rfl, Nat.le_refl 0⟩

/-- A new handle is given out as long as there are handles left. -/
theorem Given.exists_insert (hs : s.Given issued) (hroom : issued.length < slotBound)
    (object : StoredObject) : ∃ h t, s.insert object = .ok (h, t) := by
  cases hinsert : s.objects.insert object with
  | none =>
    have hfull := ((Table.insert_eq_none_iff hs.advance.wellFormed).1 hinsert).2
    have hsize := hs.size_le
    omega
  | some found =>
    obtain ⟨h, objects⟩ := found
    refine ⟨h, { s with objects := objects }, ?_⟩
    rw [insert_of_checkRoom (checkRoom_of_none hs.unbounded), hinsert]

theorem Given.insert (hs : s.Given issued) (hi : s.insert object = .ok (h, t)) :
    t.Given (issued ++ [h]) := by
  obtain ⟨objects, hinsert, rfl⟩ := insert_eq_ok hi
  have hwf := hs.advance.wellFormed
  refine ⟨hs.advance.trans (insert_advance hwf hinsert), hs.unbounded, ?_⟩
  have hsize := hs.size_le
  rw [List.length_append, List.length_singleton]
  rcases insert_cases hwf hinsert with ⟨_, _, _, -, -, -, -, -, rfl⟩ | ⟨-, -, -, rfl⟩
  · simp only [Array.size_setIfInBounds]
    omega
  · simp only [Array.size_push]
    omega

theorem Given.apply (hs : s.Given issued) (h : Handle) (effect : Effect) :
    (effect.apply s h).Given issued := by
  have hwf := hs.advance.wellFormed
  cases effect with
  | keep => exact hs
  | replace object =>
    have hadvance := hs.advance.trans (update_advance hwf h object)
    rw [List.append_nil] at hadvance
    refine ⟨hadvance, hs.unbounded, ?_⟩
    -- an object is replaced in its own slot, so no slot is added
    rw [Effect.apply, withObject, Table.update]
    split
    · simpa using hs.size_le
    · exact hs.size_le
  | delete =>
    rw [Effect.apply]
    cases hdelete : s.delete h with
    | error error => exact hs
    | ok s' =>
      rw [Except.toOption, Option.getD_some]
      obtain ⟨old, objects, hremove, rfl⟩ := delete_eq_ok hdelete
      have hadvance := hs.advance.trans (remove_advance hwf hremove)
      rw [List.append_nil] at hadvance
      refine ⟨hadvance, hs.unbounded, ?_⟩
      -- a handle that is taken back leaves its slot behind
      obtain ⟨-, rfl⟩ := remove_cases hremove
      simpa using hs.size_le

/-- **A call** gives out the handle that its answer brings, and among the handles given out before
it changes the object of none but its own. -/
theorem Given.run (hs : s.Given issued) {call : Call} {answer : Answer}
    (hrun : call.run (.ofStore s) = (answer, .ofStore t)) :
    t.Given (issued ++ answer.issued.toList) ∧
      ∀ k ∈ issued, call.handle? ≠ some k → t.objects.get? k = s.objects.get? k := by
  cases hcall : call.handle? with
  | some h =>
    obtain ⟨answer', effect, hrun', hissued⟩ := Call.run_about hcall s
    cases hrun.symm.trans hrun'
    rw [hissued, Option.toList_none, List.append_nil]
    refine ⟨hs.apply h effect, fun k _ hk => effect.get?_apply_of_ne ?_⟩
    rintro rfl
    exact hk rfl
  | none =>
    rcases Call.run_new hcall with ⟨status, hnew⟩ | ⟨names, hnew⟩
    · cases hrun.symm.trans (hnew s)
      exact ⟨by simpa [Answer.issued] using hs, fun _ _ _ => rfl⟩
    · have hrun := hrun.symm.trans (hnew s)
      cases hi : s.insert (.empty names) with
      | error error =>
        rw [hi] at hrun
        cases hrun
        exact ⟨by simpa [Answer.issued] using hs, fun _ _ _ => rfl⟩
      | ok found =>
        obtain ⟨h, t'⟩ := found
        rw [hi] at hrun
        cases hrun
        refine ⟨hs.insert hi, fun k hk _ => ?_⟩
        -- the new handle is none of those given out before
        obtain ⟨objects, hinsert, rfl⟩ := insert_eq_ok hi
        have hfresh := (insert_advance hs.advance.wellFormed hinsert).fresh h List.mem_cons_self
        rw [(Table.get?_insert hs.advance.wellFormed hinsert).2, if_neg]
        rintro rfl
        exact hfresh (hs.advance.given k hk)

end Store

/-! ## The two runs of a client -/

variable {ι : Type} {s s' t t' : Store} {call : Call} {answer answer' : Answer}

theorem Shared.turns_cons {c : ι} (hrun : call.run (.ofStore s) = (answer, .ofStore t))
    (rest : List (ι × Call)) :
    ((Shared.ofStore s).turns ((c, call) :: rest)).1 =
      ⟨c, call, answer⟩ :: ((Shared.ofStore t).turns rest).1 := by
  simp only [turns, hrun]

variable [DecidableEq ι] {client : ι} {owned : List (ι × Handle)} {pairs : List (Handle × Handle)}

/-- The calls of one client, with the handles renamed. -/
def callsOf (client : ι) (rename : Handle → Handle) (calls : List (ι × Call)) : List (ι × Call) :=
  (calls.filter fun entry => entry.1 = client).map fun entry => (entry.1, entry.2.rename rename)

theorem callsOf_cons_self (client : ι) (rename : Handle → Handle) (call : Call)
    (calls : List (ι × Call)) : callsOf client rename ((client, call) :: calls) =
      (client, call.rename rename) :: callsOf client rename calls := by
  simp [callsOf]

/-- **The stores of two runs**, one of all clients and one of a single client, who got the handles
of each pair for the same call: the objects of both handles are the same. -/
structure Isolated (client : ι) (owned : List (ι × Handle)) (pairs : List (Handle × Handle))
    (s s' : Store) : Prop where
  given : s.Given (owned.map Prod.snd)
  given' : s'.Given (pairs.map Prod.snd)
  /-- The first handles of the pairs are those that the client owns in the run of all. -/
  paired : pairs.map Prod.fst = (owned.filter fun entry => entry.1 = client).map Prod.snd
  same : ∀ pair ∈ pairs, s.objects.get? pair.1 = s'.objects.get? pair.2

namespace Isolated

theorem mem_owned_iff (hI : Isolated client owned pairs s s') {h : Handle} :
    (client, h) ∈ owned ↔ ∃ k, (h, k) ∈ pairs := by
  have hmem : (∃ k, (h, k) ∈ pairs) ↔ h ∈ pairs.map Prod.fst := by simp
  rw [hmem, hI.paired]
  simp

theorem nodup_fst (hI : Isolated client owned pairs s s') : (pairs.map Prod.fst).Nodup := by
  rw [hI.paired]
  exact hI.given.advance.nodup.sublist (List.filter_sublist.map _)

theorem length_le (hI : Isolated client owned pairs s s') : pairs.length ≤ owned.length := by
  have hlength := congrArg List.length hI.paired
  rw [List.length_map, List.length_map] at hlength
  exact hlength ▸ List.length_filter_le _ _

/-- A handle is owned by one client. -/
theorem eq_of_mem_owned (hI : Isolated client owned pairs s s') {a b : ι} {h : Handle}
    (ha : (a, h) ∈ owned) (hb : (b, h) ∈ owned) : a = b :=
  congrArg Prod.fst (List.inj_on_of_nodup_map hI.given.advance.nodup ha hb rfl)

/-- **A call of another client** is about a handle of its own, so that nothing changes for this
one. -/
theorem other (hI : Isolated client owned pairs s s') {c : ι} (hc : c ≠ client)
    (howns : ∀ h, call.handle? = some h → (c, h) ∈ owned)
    (hrun : call.run (.ofStore s) = (answer, .ofStore t)) :
    Isolated client (owned ++ (Turn.issued ⟨c, call, answer⟩).toList) pairs t s' := by
  obtain ⟨hgiven, hothers⟩ := hI.given.run hrun
  refine ⟨?_, hI.given', ?_, fun pair hpair => ?_⟩
  · cases hissued : answer.issued <;> simpa [Turn.issued, hissued] using hgiven
  · cases hissued : answer.issued <;> simp [Turn.issued, hissued, hI.paired, hc]
  · -- a handle that both clients owned would have been given out twice
    have hmine : (client, pair.1) ∈ owned := hI.mem_owned_iff.2 ⟨pair.2, hpair⟩
    rw [← hI.same pair hpair]
    refine hothers _ (List.mem_map_of_mem hmine) fun hcall => hc ?_
    exact hI.eq_of_mem_owned (howns _ hcall) hmine

/-- **A call of the client about a handle** does the same in both runs. -/
theorem mine (hI : Isolated client owned pairs s s') {h k : Handle} (hpair : (h, k) ∈ pairs)
    (hcall : call.handle? = some h) :
    ∃ answer answer' t t', call.run (.ofStore s) = (answer, .ofStore t) ∧
      (call.about k).run (.ofStore s') = (answer', .ofStore t') ∧ answer.issued = none ∧
      (∀ rename, rename h = k → call.Alike rename answer answer') ∧
      Isolated client owned pairs t t' := by
  have hcall' : (call.about k).handle? = some k := Call.handle?_about hcall
  obtain ⟨answer, answer', t, t', hrun, hrun', halike, hobject⟩ :=
    Call.alike_run (fun _ => k) hcall (hI.same _ hpair)
  obtain ⟨hgiven, hothers⟩ := hI.given.run hrun
  obtain ⟨hgiven', hothers'⟩ := hI.given'.run hrun'
  have hissued := Call.issued_eq_none hcall hrun
  have hissued' := Call.issued_eq_none hcall' hrun'
  rw [hissued, Option.toList_none, List.append_nil] at hgiven
  rw [hissued', Option.toList_none, List.append_nil] at hgiven'
  refine ⟨answer, answer', t, t', hrun, hrun', hissued,
    fun rename hrename => halike.congr hcall hrename.symm, hgiven, hgiven', hI.paired, ?_⟩
  rintro ⟨h', k'⟩ hpair'
  by_cases hh : h' = h
  · -- the pair is that of the call
    subst hh
    cases List.inj_on_of_nodup_map hI.nodup_fst hpair' hpair rfl
    exact hobject
  · -- another pair shares neither of its handles with that of the call
    have hk : k' ≠ k := fun hk => hh (congrArg Prod.fst
      (List.inj_on_of_nodup_map hI.given'.advance.nodup hpair' hpair hk))
    have hmine : h' ∈ owned.map Prod.snd :=
      List.mem_map_of_mem (hI.mem_owned_iff.2 ⟨k', hpair'⟩)
    rw [hothers h' hmine (by simp [hcall, Ne.symm hh]),
      hothers' k' (List.mem_map_of_mem hpair') (by simp [hcall', Ne.symm hk])]
    exact hI.same _ hpair'

/-- **A call of the client for a new handle** is refused in both runs, or gives out a new pair. -/
theorem new (hI : Isolated client owned pairs s s') (hroom : owned.length < slotBound)
    (hcall : call.handle? = none) :
    ∃ answer answer' t t' added, call.run (.ofStore s) = (answer, .ofStore t) ∧
      call.run (.ofStore s') = (answer', .ofStore t') ∧
      (∀ rename : Handle → Handle, (∀ pair ∈ pairs ++ added, rename pair.1 = pair.2) →
        answer' = answer.rename rename) ∧
      Isolated client (owned ++ (Turn.issued ⟨client, call, answer⟩).toList) (pairs ++ added)
        t t' := by
  rcases Call.run_new hcall with ⟨status, hnew⟩ | ⟨names, hnew⟩
  · refine ⟨_, _, s, s', [], hnew s, hnew s', fun _ _ => rfl, ?_⟩
    simpa [Turn.issued, Answer.issued] using hI
  · -- alone, the client has made no more handles than all clients together, so both stores have
    -- room
    obtain ⟨h, t, hi⟩ := hI.given.exists_insert (by simpa using hroom) (.empty names)
    obtain ⟨k, t', hi'⟩ := hI.given'.exists_insert
      (by simpa using Nat.lt_of_le_of_lt hI.length_le hroom) (.empty names)
    have hrun := hnew s
    have hrun' := hnew s'
    rw [hi] at hrun
    rw [hi'] at hrun'
    refine ⟨_, _, t, t', [(h, k)], hrun, hrun', ?_, ?_⟩
    · intro rename hrename
      have hk : rename h = k := hrename (h, k) (by simp)
      simp [Answer.rename, hk]
    · obtain ⟨hgiven, hothers⟩ := hI.given.run hrun
      obtain ⟨hgiven', hothers'⟩ := hI.given'.run hrun'
      refine ⟨by simpa [Turn.issued, Answer.issued] using hgiven,
        by simpa [Answer.issued] using hgiven', ?_, ?_⟩
      · simp [Turn.issued, Answer.issued, hI.paired]
      · rintro ⟨h', k'⟩ hpair
        rcases List.mem_append.1 hpair with hpair | hpair
        · -- handles given out before are left alone by the call in both runs
          have hmine : h' ∈ owned.map Prod.snd :=
            List.mem_map_of_mem (hI.mem_owned_iff.2 ⟨k', hpair⟩)
          rw [hothers h' hmine (by simp [hcall]),
            hothers' k' (List.mem_map_of_mem hpair) (by simp [hcall])]
          exact hI.same _ hpair
        · -- under both new handles there is the object without content
          obtain ⟨rfl, rfl⟩ := Prod.mk.inj (List.mem_singleton.1 hpair)
          have hobject := (Store.object_insert hI.given.advance.wellFormed hi).2 h'
          have hobject' := (Store.object_insert hI.given'.advance.wellFormed hi').2 k'
          rw [if_pos rfl, Store.object_eq_ok_iff] at hobject hobject'
          rw [hobject, hobject']

/-- Handles that were given out in pairs are renamed. -/
theorem exists_rename_nil (hI : Isolated client owned pairs s s') :
    ∃ rename : Handle → Handle, (∀ pair ∈ pairs, rename pair.1 = pair.2) ∧
      Set.InjOn rename {h | (client, h) ∈ owned} := by
  -- handles of other clients keep their names, as nobody asks for them
  have hrename : ∀ pair ∈ pairs, (pairs.lookup pair.1).getD pair.1 = pair.2 := by
    intro pair hpair
    rw [lookup_eq_some_of_mem hI.nodup_fst hpair, Option.getD_some]
  refine ⟨fun h => (pairs.lookup h).getD h, hrename, ?_⟩
  intro h hh h' hh' heq
  obtain ⟨k, hpair⟩ := hI.mem_owned_iff.1 hh
  obtain ⟨k', hpair'⟩ := hI.mem_owned_iff.1 hh'
  have hk := hrename _ hpair
  have hk' := hrename _ hpair'
  exact congrArg Prod.fst (List.inj_on_of_nodup_map hI.given'.advance.nodup hpair hpair'
    (hk.symm.trans (heq.trans hk')))

/-- **Runs that go on from related stores**: the client gets answers that agree, up to a renaming
that takes the first handle of each pair to the second and keeps the client's handles apart. -/
theorem exists_rename (hI : Isolated client owned pairs s s') (calls : List (ι × Call))
    (howns : OwnHandles owned ((Shared.ofStore s).turns calls).1)
    (hroom : owned.length +
      (((Shared.ofStore s).turns calls).1.filterMap Turn.issued).length < slotBound) :
    ∃ rename : Handle → Handle, (∀ pair ∈ pairs, rename pair.1 = pair.2) ∧
      Set.InjOn rename {h | (client, h) ∈
        owned ++ ((Shared.ofStore s).turns calls).1.filterMap Turn.issued} ∧
      List.Forall₂ (Turn.Alike rename)
        (((Shared.ofStore s).turns calls).1.filter fun turn => turn.client = client)
        ((Shared.ofStore s').turns (callsOf client rename calls)).1 := by
  -- the renaming is found at the end of the runs, when all pairs are known
  induction calls generalizing owned pairs s s' with
  | nil =>
    obtain ⟨rename, hrename, hinj⟩ := hI.exists_rename_nil
    exact ⟨rename, hrename, by simpa [Shared.turns] using hinj, .nil⟩
  | cons entry rest ih =>
    obtain ⟨c, call⟩ := entry
    obtain ⟨answer, t, hrun⟩ := Call.exists_run call s
    rw [Shared.turns_cons hrun] at howns hroom ⊢
    have hissued : owned ++ (⟨c, call, answer⟩ :: ((Shared.ofStore t).turns rest).1).filterMap
        Turn.issued = owned ++ (Turn.issued ⟨c, call, answer⟩).toList ++
          ((Shared.ofStore t).turns rest).1.filterMap Turn.issued := by
      cases h : Turn.issued ⟨c, call, answer⟩ <;> simp [h]
    rw [← List.length_append, hissued, List.length_append] at hroom
    rw [hissued]
    by_cases hc : c = client
    · subst hc
      cases hcall : call.handle? with
      | some h =>
        obtain ⟨k, hpair⟩ := hI.mem_owned_iff.1 (howns.1 h hcall)
        obtain ⟨answer₁, answer', t₁, t', hrun₁, hrun', hissued, halike, hI'⟩ := hI.mine hpair hcall
        cases hrun.symm.trans hrun₁
        -- no handle is given out, so the pairs stay the same
        have hnone : Turn.issued ⟨c, call, answer⟩ = none := by
          rw [Turn.issued, hissued, Option.map_none]
        have howns := howns.2
        rw [hnone, Option.toList_none, List.append_nil] at howns hroom ⊢
        obtain ⟨rename, hrename, hinj, hturns⟩ := ih hI' howns hroom
        have hk : rename h = k := hrename _ hpair
        have hcall' : call.rename rename = call.about k := by rw [Call.rename, hcall, ← hk]
        refine ⟨rename, hrename, hinj, ?_⟩
        rw [callsOf_cons_self, hcall', Shared.turns_cons hrun', List.filter_cons_of_pos (by simp)]
        exact .cons ⟨hcall'.symm, halike rename hk⟩ hturns
      | none =>
        have hleft : owned.length < slotBound := by
          rw [List.length_append] at hroom
          omega
        obtain ⟨answer₁, answer', t₁, t', added, hrun₁, hrun', hanswer, hI'⟩ := hI.new hleft hcall
        cases hrun.symm.trans hrun₁
        obtain ⟨rename, hrename, hinj, hturns⟩ := ih hI' howns.2 hroom
        have hcall' : call.rename rename = call := by rw [Call.rename, hcall]
        refine ⟨rename, fun pair hpair => hrename pair (List.mem_append_left _ hpair), hinj, ?_⟩
        rw [callsOf_cons_self, hcall', Shared.turns_cons hrun', List.filter_cons_of_pos (by simp)]
        refine .cons ⟨hcall'.symm, ?_⟩ hturns
        rw [hanswer rename hrename]
        exact .issued hcall answer
    · have hI' := hI.other hc howns.1 hrun
      obtain ⟨rename, hrename, hinj, hturns⟩ := ih hI' howns.2 hroom
      exact ⟨rename, hrename, hinj, by simpa [callsOf, hc] using hturns⟩

end Isolated

/-- **Clients of the shared store are isolated.** Several clients call the shared store in any
order, each about handles that its own calls brought, and there are handles enough for all. Then the
answers that one of them gets are those that its calls get when it is alone, up to a renaming of its
handles, which is also seen in the first line of a dump: every status, kind, number, length and
buffer is the same, but for a dump, which delivers the same text with the handle renamed. -/
theorem clients_are_isolated (client : ι) (calls : List (ι × Call))
    (howns : OwnHandles [] ((Shared.ofStore .empty).turns calls).1)
    (hroom : (((Shared.ofStore .empty).turns calls).1.filterMap Turn.issued).length < slotBound) :
    ∃ rename : Handle → Handle,
      Set.InjOn rename {h | (client, h) ∈
        ((Shared.ofStore .empty).turns calls).1.filterMap Turn.issued} ∧
      List.Forall₂ (Turn.Alike rename)
        (((Shared.ofStore .empty).turns calls).1.filter fun turn => turn.client = client)
        ((Shared.ofStore .empty).turns (callsOf client rename calls)).1 := by
  have hI : Isolated client [] [] Store.empty Store.empty :=
    ⟨Store.given_empty, Store.given_empty, rfl, by simp⟩
  obtain ⟨rename, -, hinj, hturns⟩ := hI.exists_rename calls howns (by simpa using hroom)
  exact ⟨rename, by simpa using hinj, hturns⟩

/-- Two clients with a handle each; the second one looks at its object. -/
theorem clients_are_isolated_two :
    let target : Target := ⟨.bytes (.zeros 48), true⟩
    let calls : List (Bool × Call) :=
      [(false, .newData true), (true, .newData true), (true, .dump 4294967297 target)]
    let turns := ((Shared.ofStore .empty).turns calls).1
    OwnHandles [] turns ∧ (turns.filterMap Turn.issued).length < slotBound ∧
      ∃ rename : Handle → Handle, Set.InjOn rename {h | (true, h) ∈ turns.filterMap Turn.issued} ∧
        List.Forall₂ (Turn.Alike rename) (turns.filter fun turn => turn.client = true)
          ((Shared.ofStore .empty).turns (callsOf true rename calls)).1 := by
  intro target calls turns
  have howns : OwnHandles [] turns := by
    refine ⟨by simp [Call.handle?], by simp [Call.handle?], ?_, trivial⟩
    rintro h ⟨⟩
    decide +kernel
  have hroom : (turns.filterMap Turn.issued).length < slotBound := by decide +kernel
  exact ⟨howns, hroom, clients_are_isolated true calls howns hroom⟩

/-- **A dump gives others away**: its first line is longer for a handle with more digits. The second
client's dump does not fit where it does when the client is alone, whichever handle is passed
then. -/
theorem dump_shows_other_clients :
    let target : Target := ⟨.bytes (.zeros 48), true⟩
    let calls : List (Bool × Call) :=
      [(false, .newData true), (true, .newData true), (true, .dump 4294967297 target)]
    let turns := ((Shared.ofStore .empty).turns calls).1
    OwnHandles [] turns ∧ (turns.filterMap Turn.issued).length < slotBound ∧
      ¬ ∃ rename : Handle → Handle,
        List.Forall₂ (fun turn turn' => turn.answer.status = turn'.answer.status)
          (turns.filter fun turn => turn.client = true)
          ((Shared.ofStore .empty).turns (callsOf true rename calls)).1 := by
  intro target calls turns
  have howns : OwnHandles [] turns := by
    refine ⟨by simp [Call.handle?], by simp [Call.handle?], ?_, trivial⟩
    rintro h ⟨⟩
    decide +kernel
  refine ⟨howns, by decide +kernel, ?_⟩
  rintro ⟨rename, hturns⟩
  -- alone, the client gets the handle 1
  obtain ⟨t, hi⟩ : ∃ t, Store.empty.insert (.empty none) = .ok (1, t) := ⟨_, rfl⟩
  have hrun := (Call.run_newData .empty).trans (congrArg (Call.allotted .empty) hi)
  obtain ⟨answer, t', hdump⟩ := Call.exists_run (.dump (rename 4294967297) target) t
  have halone : ((Shared.ofStore .empty).turns (callsOf true rename calls)).1 =
      [⟨true, .newData true, .handle .ok (some 1)⟩,
        ⟨true, .dump (rename 4294967297) target, answer⟩] := by
    show ((Shared.ofStore .empty).turns
      [(true, .newData true), (true, .dump (rename 4294967297) target)]).1 = _
    rw [Shared.turns_cons hrun, Shared.turns_cons hdump, Shared.turns]
  rw [halone] at hturns
  have hmine : (turns.filter fun turn => turn.client = true).map (fun turn => turn.answer.status) =
      [.ok, .bufferTooSmall] := by
    decide +kernel
  rw [← List.forall₂_map_right_iff (f := fun turn : Turn Bool => turn.answer.status),
    ← List.forall₂_map_left_iff (f := fun turn : Turn Bool => turn.answer.status),
    List.forall₂_eq_eq_eq, hmine] at hturns
  simp only [List.map_cons, List.map_nil, List.cons.injEq, and_true] at hturns
  have hstatus : answer.status = .bufferTooSmall := hturns.2.symm
  -- the dump fits if it is of the client's handle, and otherwise there is nothing to dump
  have hobject := (Store.object_insert .empty hi).2 (rename 4294967297)
  by_cases hone : rename 4294967297 = 1
  · rw [if_pos hone, hone] at hobject
    have hlive := Call.run_dump hobject target
    rw [StoredObject.empty, Entries.decode_emptyEncoding, ← hone] at hlive
    cases hdump.symm.trans hlive
    rw [hone] at hstatus
    revert hstatus
    decide +kernel
  · have hdead : t.objects.get? (rename 4294967297) = none := by
      obtain ⟨objects, hinsert, rfl⟩ := Store.insert_eq_ok hi
      rw [(get?_insert .empty hinsert).2, if_neg hone]
      exact get?_empty _
    cases hdump.symm.trans (Call.run_dead rfl hdead)
    have hstatus : Status.invalidHandle = .bufferTooSmall := hstatus
    contradiction

end Parcel
