import Mathlib.Data.List.Induction
import Parcel.Proofs.Payload.InPlace

/-!
# Metadata keys keep their order

Single entries of the metadata are set, removed and looked up, and all of them can be cleared.
Whatever the order of such calls, refused ones among them, every key is listed once, with the value
that was stored under it last, and the keys come in the order in which they were inserted. A key
that is stored again keeps its place; one that is removed and stored again is inserted anew.

## Main definitions

* `EntryCall`, `EntryCall.perform`: calls about entries, and their answers
* `EntryCall.after`: the payload that calls lead to, from an empty one
* `EntryCall.LastStored`: the value that was stored last under a key
* `EntryCall.InsertedAt`, `EntryCall.InsertedBefore`: when a key was inserted

## Main results

* `EntryCall.change_perform`: what every call does to the entries
* `EntryCall.get?_after`: the value of a key after any calls
* `EntryCall.keys_keep_their_order`: keys, values and their order after any calls
-/

namespace Parcel

namespace Entries

variable {entries : Entries} {key : String}

theorem keys_erase (entries : Entries) (key : String) :
    keys (erase entries key) = (keys entries).filter (· ≠ key) := by
  rw [keys, erase, keys, List.filter_map]
  rfl

/-- The key that is taken out has no value, and all others keep theirs. -/
theorem get?_erase (entries : Entries) (key other : String) :
    get? (erase entries key) other = if other = key then none else get? entries other := by
  induction entries with
  | nil => simp [erase, get?]
  | cons entry rest ih =>
    obtain ⟨first, value⟩ := entry
    simp only [get?, erase] at ih ⊢
    by_cases hfirst : first = key
    · -- the entry is taken out, and its key is the one that has no value
      rw [List.filter_cons_of_neg (by simpa using hfirst), ih, List.lookup_cons]
      by_cases hother : other = key
      · rw [if_pos hother, if_pos hother]
      · rw [if_neg hother, if_neg hother, hfirst, beq_false_of_ne hother]
    · rw [List.filter_cons_of_pos (by simpa using hfirst), List.lookup_cons, List.lookup_cons]
      by_cases hother : other = first
      · rw [hother, if_neg hfirst, beq_self_eq_true]
      · rw [beq_false_of_ne hother, ih]

theorem get?_eq_none_iff : get? entries key = none ↔ key ∉ keys entries := by
  rw [get?, List.lookup_eq_none_iff, keys, List.mem_map]
  constructor
  · rintro hne ⟨entry, hmem, rfl⟩
    simpa using hne entry hmem
  · intro hnot entry hmem
    rw [bne_iff_ne]
    rintro rfl
    exact hnot ⟨entry, hmem, rfl⟩

end Entries

/-- A call about single entries of the metadata, or about all of them. -/
inductive EntryCall
  | set (key : String) (offer : Offer)
  | setValue (key : String) (value : Json)
  | remove (key : String)
  | get (key : String)
  | clear

namespace EntryCall

/-- The answer to a call, and the payload afterwards. -/
def perform (p : Payload) : EntryCall → Except Error Edit.Reply × Payload
  | .set key offer => p.edit (.set key offer)
  | .setValue key value => p.edit (.setValue key value)
  | .remove key => p.edit (.remove key)
  | .get key => ((p.get key).map fun value => .value (some value), p)
  | .clear => p.edit .clearMetadata

/-- The payload that calls lead to, from an empty one. -/
def after (calls : List EntryCall) : Payload :=
  calls.foldl (fun p call => (perform p call).2) .empty

theorem after_concat (calls : List EntryCall) (call : EntryCall) :
    after (calls ++ [call]) = (perform (after calls) call).2 :=
  List.foldl_append

/-! ## What a call does -/

/-- The key under which a call is to store a value. -/
def target? : EntryCall → Option String
  | .set key _ => some key
  | .setValue key _ => some key
  | _ => none

/-- A call stores a value under a key: what it offers can be stored. -/
inductive Stores : EntryCall → String → Json → Prop
  | set {key : String} {offer : Offer} {value : Json} (h : offer.toMetadata = .ok value) :
      Stores (.set key offer) key value
  | setValue {key : String} {value : Json} (h : value.check = .ok ()) :
      Stores (.setValue key value) key value

/-- A call takes a key out, if it is there. -/
inductive Drops : EntryCall → String → Prop
  | remove (key : String) : Drops (.remove key) key
  | clear (key : String) : Drops .clear key

@[simp] theorem stores_set {target key : String} {offer : Offer} {value : Json} :
    Stores (.set target offer) key value ↔ target = key ∧ offer.toMetadata = .ok value := by
  constructor
  · rintro (hvalue | _)
    exact ⟨rfl, hvalue⟩
  · rintro ⟨rfl, hvalue⟩
    exact .set hvalue

@[simp] theorem stores_setValue {target key : String} {offered value : Json} :
    Stores (.setValue target offered) key value ↔
      target = key ∧ offered = value ∧ offered.check = .ok () := by
  constructor
  · rintro (_ | hcheck)
    exact ⟨rfl, rfl, hcheck⟩
  · rintro ⟨rfl, rfl, hcheck⟩
    exact .setValue hcheck

theorem drops_iff {call : EntryCall} {key : String} :
    call.Drops key ↔ call = .remove key ∨ call = .clear := by
  constructor
  · rintro (_ | _)
    · exact .inl rfl
    · exact .inr rfl
  · rintro (rfl | rfl)
    · exact .remove key
    · exact .clear key

/-- **What a call does to the entries.** -/
inductive Change (call : EntryCall) (m : Entries) : Entries → Prop
  | stored {key : String} {value : Json} (h : call.Stores key value) :
      Change call m (m.insert key value)
  | removed {key : String} (h : call = .remove key) : Change call m (m.erase key)
  | cleared (h : call = .clear) : Change call m []
  | kept (hstores : ∀ key value, ¬ call.Stores key value) (hdrops : ∀ key, ¬ call.Drops key) :
      Change call m m

theorem metadata_perform_of_stores {call : EntryCall} {key : String} {value : Json}
    (h : call.Stores key value) (p : Payload) :
    (perform p call).2.metadata = p.metadata.insert key value := by
  cases h with
  | set hvalue =>
    rw [perform, Payload.edit, Payload.set, hvalue]
    rfl
  | setValue hcheck =>
    rw [perform, Payload.edit, Payload.setValue, hcheck]
    rfl

theorem metadata_perform_remove (p : Payload) (key : String) :
    (perform p (.remove key)).2.metadata = p.metadata.erase key := by
  rw [perform, Payload.edit, Payload.remove]
  cases hold : Entries.get? p.metadata key with
  | none => exact (Entries.erase_of_get?_eq_none hold).symm
  | some value => rfl

/-- A call that is to store a value takes nothing out. -/
theorem not_drops_of_target? {call : EntryCall} {key other : String}
    (h : call.target? = some key) : ¬ call.Drops other := by
  rintro (_ | _) <;> contradiction

/-- **Every call makes a change.** -/
theorem change_perform (call : EntryCall) (p : Payload) :
    call.Change p.metadata (perform p call).2.metadata := by
  cases call with
  | set key offer =>
    cases hoffer : offer.toMetadata with
    | error error =>
      rw [perform, Payload.edit, Payload.set, hoffer]
      exact .kept (by simp [hoffer]) fun _ => not_drops_of_target? rfl
    | ok value =>
      rw [metadata_perform_of_stores (.set hoffer)]
      exact .stored (.set hoffer)
  | setValue key value =>
    cases hcheck : value.check with
    | error error =>
      rw [perform, Payload.edit, Payload.setValue, hcheck]
      exact .kept (by simp [hcheck]) fun _ => not_drops_of_target? rfl
    | ok =>
      rw [metadata_perform_of_stores (.setValue hcheck)]
      exact .stored (.setValue hcheck)
  | remove key =>
    rw [metadata_perform_remove]
    exact .removed rfl
  | get key =>
    refine .kept ?_ ?_
    · rintro other value ⟨⟩
    · rintro other ⟨⟩
  | clear => exact .cleared rfl

variable {call : EntryCall} {m m' : Entries} {key other : String} {value : Json}

theorem Stores.target?_eq (h : call.Stores key value) : call.target? = some key := by
  cases h <;> rfl

theorem Stores.not_drops (h : call.Stores key value) : ¬ call.Drops other :=
  not_drops_of_target? h.target?_eq

/-- A call stores one value. -/
theorem Stores.value_eq {value' : Json} (h : call.Stores key value) (h' : call.Stores key value') :
    value = value' := by
  cases h with
  | setValue _ =>
    cases h'
    rfl
  | set hvalue =>
    cases h' with
    | set hvalue' => exact Except.ok.inj (hvalue.symm.trans hvalue')

/-- **The value of a key after a call** is the one that the call stored, or the one that the key had
before if the call had nothing to do with the key. -/
theorem Change.get?_eq_some_iff (h : call.Change m m') : m'.get? key = some value ↔
    call.Stores key value ∨
      m.get? key = some value ∧ ¬ call.Drops key ∧ ∀ other, ¬ call.Stores key other := by
  cases h with
  | @stored stored new hstores =>
    rw [Entries.get?_insert]
    split
    · next heq =>
      subst heq
      rw [Option.some.injEq]
      constructor
      · rintro rfl
        exact .inl hstores
      · rintro (hvalue | ⟨-, -, hnone⟩)
        · exact hstores.value_eq hvalue
        · exact absurd hstores (hnone _)
    · next hne =>
      have hnone (other : Json) : ¬ call.Stores key other := by
        intro hother
        exact hne (Option.some.inj (hother.target?_eq.symm.trans hstores.target?_eq))
      simp [hnone, hstores.not_drops]
  | @removed removed hremove =>
    subst hremove
    have hstores (other : Json) : ¬ Stores (.remove removed) key other := by rintro ⟨⟩
    rw [Entries.get?_erase]
    split
    · next heq =>
      subst heq
      simp [hstores, Drops.remove key]
    · next hne =>
      have hdrops : ¬ Drops (.remove removed) key := by
        rintro ⟨⟩
        exact hne rfl
      simp [hstores, hdrops]
  | cleared hclear =>
    subst hclear
    have hstores (other : Json) : ¬ Stores .clear key other := by rintro ⟨⟩
    simp [Entries.get?, hstores, Drops.clear key]
  | kept hstores hdrops => simp [hstores, hdrops]

/-- **The keys after a call** are some of those before it in their order, or those before it with a
new one behind them. -/
theorem Change.keys_cases (h : call.Change m m') : m'.keys.Sublist m.keys ∨
    ∃ key, key ∉ m.keys ∧ m'.keys = m.keys ++ [key] := by
  cases h with
  | @stored key value hstores =>
    rw [Entries.keys_insert]
    split
    · exact .inl (List.Sublist.refl _)
    · next hnew => exact .inr ⟨key, hnew, rfl⟩
  | removed _ =>
    rw [Entries.keys_erase]
    exact .inl List.filter_sublist
  | cleared _ => exact .inl (List.nil_sublist _)
  | kept _ _ => exact .inl (List.Sublist.refl _)

/-! ## Values after any calls -/

/-- **The value that was stored last** under a key, by a call that no other one came behind that
stored something under the key or took it out. -/
def LastStored (calls : List EntryCall) (key : String) (value : Json) : Prop :=
  ∃ before call later, calls = before ++ call :: later ∧ call.Stores key value ∧
    ∀ c ∈ later, ¬ c.Drops key ∧ ∀ other, ¬ c.Stores key other

theorem not_lastStored_nil : ¬ LastStored [] key value := by
  rintro ⟨before, call, later, heq, -⟩
  simp at heq

theorem lastStored_concat {calls : List EntryCall} : LastStored (calls ++ [call]) key value ↔
    call.Stores key value ∨
      LastStored calls key value ∧ ¬ call.Drops key ∧ ∀ other, ¬ call.Stores key other := by
  constructor
  · rintro ⟨before, storing, later, heq, hstores, hlater⟩
    -- the new call is the one that stores, or comes after it
    rcases List.eq_nil_or_concat later with rfl | ⟨later, last, rfl⟩
    · obtain ⟨-, hlast⟩ := List.append_inj' heq rfl
      cases hlast
      exact .inl hstores
    · rw [List.concat_eq_append] at heq hlater
      have heq' : calls ++ [call] = (before ++ storing :: later) ++ [last] := by simpa using heq
      obtain ⟨hcalls, hlast⟩ := List.append_inj' heq' rfl
      cases hlast
      obtain ⟨hdrops, hnone⟩ := hlater call (by simp)
      refine .inr ⟨⟨before, storing, later, hcalls, hstores, ?_⟩, hdrops, hnone⟩
      exact fun c hc => hlater c (List.mem_append_left _ hc)
  · rintro (hstores | ⟨⟨before, storing, later, rfl, hstores, hlater⟩, hdrops, hnone⟩)
    · exact ⟨calls, call, [], rfl, hstores, by simp⟩
    · refine ⟨before, storing, later ++ [call], by simp, hstores, ?_⟩
      intro c hc
      rcases List.mem_append.1 hc with hc | hc
      · exact hlater c hc
      · rw [List.mem_singleton.1 hc]
        exact ⟨hdrops, hnone⟩

/-- **The value of a key after any calls** is the one that was stored last under it. -/
theorem get?_after (calls : List EntryCall) : (after calls).metadata.get? key = some value ↔
    LastStored calls key value := by
  induction calls using List.reverseRecOn generalizing value with
  | nil => exact iff_of_false nofun not_lastStored_nil
  | append_singleton calls call ih =>
    rw [after_concat, (change_perform call (after calls)).get?_eq_some_iff, lastStored_concat, ih]

/-! ## Keys after any calls -/

/-- A key is listed after the first calls. -/
def ListedAfter (calls : List EntryCall) (count : Nat) (key : String) : Prop :=
  key ∈ (after (calls.take count)).metadata.keys

/-- **When a key was inserted**: it was not listed before the call with this index, and it has been
listed ever since. -/
structure InsertedAt (calls : List EntryCall) (key : String) (index : Nat) : Prop where
  lt_length : index < calls.length
  absent : ¬ ListedAfter calls index key
  listed : ∀ count, index < count → count ≤ calls.length → ListedAfter calls count key

/-- One key was inserted before another. -/
def InsertedBefore (calls : List EntryCall) (a b : String) : Prop :=
  ∃ i j, InsertedAt calls a i ∧ InsertedAt calls b j ∧ i < j

variable {calls : List EntryCall} {index count : Nat}

theorem listedAfter_concat (h : count ≤ calls.length) :
    ListedAfter (calls ++ [call]) count key ↔ ListedAfter calls count key := by
  rw [ListedAfter, ListedAfter, List.take_append_of_le_length h]

theorem listedAfter_length :
    ListedAfter calls calls.length key ↔ key ∈ (after calls).metadata.keys := by
  rw [ListedAfter, List.take_length]

/-- A key is inserted once since it was last absent. -/
theorem InsertedAt.unique {index' : Nat} (h : InsertedAt calls key index)
    (h' : InsertedAt calls key index') : index = index' := by
  rcases Nat.lt_trichotomy index index' with hlt | heq | hlt
  · exact absurd (h.listed index' hlt (Nat.le_of_lt h'.lt_length)) h'.absent
  · exact heq
  · exact absurd (h'.listed index hlt (Nat.le_of_lt h.lt_length)) h.absent

/-- A key that is still listed after one more call was inserted when it was before. -/
theorem InsertedAt.concat (h : InsertedAt calls key index)
    (hkey : key ∈ (after (calls ++ [call])).metadata.keys) :
    InsertedAt (calls ++ [call]) key index where
  lt_length := by
    rw [List.length_append]
    exact Nat.lt_add_right _ h.lt_length
  absent := by
    rw [listedAfter_concat (Nat.le_of_lt h.lt_length)]
    exact h.absent
  listed count hlt hle := by
    -- the key is there after the last call by assumption, and was there before
    rcases Nat.lt_or_ge calls.length count with hlast | hbefore
    · have hcount : count = (calls ++ [call]).length := by
        rw [List.length_append, List.length_singleton] at hle ⊢
        omega
      rw [hcount, listedAfter_length]
      exact hkey
    · rw [listedAfter_concat hbefore]
      exact h.listed count hlt hbefore

/-- A key that is listed after a call, and not before, was inserted by the call. -/
theorem insertedAt_length (habsent : key ∉ (after calls).metadata.keys)
    (hkey : key ∈ (after (calls ++ [call])).metadata.keys) :
    InsertedAt (calls ++ [call]) key calls.length where
  lt_length := by simp
  absent := by rwa [listedAfter_concat (Nat.le_refl _), listedAfter_length]
  listed count hlt hle := by
    have hcount : count = (calls ++ [call]).length := by
      rw [List.length_append, List.length_singleton] at hle ⊢
      omega
    rw [hcount, listedAfter_length]
    exact hkey

/-- **Every key that is listed was inserted.** -/
theorem exists_insertedAt (hkey : key ∈ (after calls).metadata.keys) :
    ∃ index, InsertedAt calls key index := by
  induction calls using List.reverseRecOn with
  | nil => contradiction
  | append_singleton calls call ih =>
    by_cases hbefore : key ∈ (after calls).metadata.keys
    · obtain ⟨index, hindex⟩ := ih hbefore
      exact ⟨index, hindex.concat hkey⟩
    · exact ⟨calls.length, insertedAt_length hbefore hkey⟩

/-- **The keys come in the order of their insertion**, none of them twice. -/
theorem pairwise_insertedBefore (calls : List EntryCall) :
    (after calls).metadata.keys.Pairwise (InsertedBefore calls) := by
  induction calls using List.reverseRecOn with
  | nil => exact .nil
  | append_singleton calls call ih =>
    have hchange := change_perform call (after calls)
    rw [← after_concat] at hchange
    -- a key that stays keeps the place of its insertion
    have hlater {a b : String} (ha : a ∈ (after (calls ++ [call])).metadata.keys)
        (hb : b ∈ (after (calls ++ [call])).metadata.keys) (hab : InsertedBefore calls a b) :
        InsertedBefore (calls ++ [call]) a b := by
      obtain ⟨i, j, hi, hj, hij⟩ := hab
      exact ⟨i, j, hi.concat ha, hj.concat hb, hij⟩
    -- a call takes keys away, or puts a new one behind all others
    rcases hchange.keys_cases with hsublist | ⟨key, hnew, hkeys⟩
    · exact (ih.sublist hsublist).imp_of_mem hlater
    · have hkey : key ∈ (after (calls ++ [call])).metadata.keys := by simp [hkeys]
      have hold {a : String} (ha : a ∈ (after calls).metadata.keys) :
          a ∈ (after (calls ++ [call])).metadata.keys := by simp [hkeys, ha]
      rw [hkeys, List.pairwise_append]
      refine ⟨ih.imp_of_mem fun ha hb => hlater (hold ha) (hold hb),
        List.pairwise_singleton _ _, ?_⟩
      intro a ha b hb
      obtain rfl := List.mem_singleton.1 hb
      obtain ⟨i, hi⟩ := exists_insertedAt ha
      exact ⟨i, calls.length, hi.concat (hold ha), insertedAt_length hnew hkey, hi.lt_length⟩

theorem InsertedBefore.ne {a b : String} (h : InsertedBefore calls a b) : a ≠ b := by
  obtain ⟨i, j, hi, hj, hij⟩ := h
  rintro rfl
  exact Nat.ne_of_lt hij (hi.unique hj)

/-! ## Answers -/

theorem get_eq_ok_iff {p : Payload} : p.get key = .ok value ↔ p.metadata.get? key = some value := by
  rw [Payload.get]
  cases p.metadata.get? key with
  | none => simp
  | some found => simp

/-- A call that is to store a value succeeds exactly if it does. -/
theorem exists_reply_iff {p : Payload} (htarget : call.target? = some key) :
    (∃ reply, (perform p call).1 = .ok reply) ↔ ∃ value, call.Stores key value := by
  have hrefused (error : Error) : ¬ ∃ reply : Edit.Reply, Except.error error = .ok reply := by
    rintro ⟨reply, hreply⟩
    contradiction
  cases call with
  | set target offer =>
    cases htarget
    rw [perform, Payload.edit, Payload.set]
    cases hoffer : offer.toMetadata with
    | error error => exact iff_of_false (hrefused error) (by simp [hoffer])
    | ok value => exact iff_of_true ⟨_, rfl⟩ ⟨value, .set hoffer⟩
  | setValue target value =>
    cases htarget
    rw [perform, Payload.edit, Payload.setValue]
    cases hcheck : value.check with
    | error error => exact iff_of_false (hrefused error) (by simp [hcheck])
    | ok => exact iff_of_true ⟨_, rfl⟩ ⟨value, .setValue hcheck⟩
  | remove _ | get _ | clear => contradiction

/-- **Keys are unique and keep their order.** After any calls, refused ones included, no key is
listed twice; keys and values are those of the entries, place by place; a key is found exactly if it
is listed, with the value that was stored last under it; and the keys come in the order in which
each was inserted since it was last absent. Whatever comes next, a call that is to store a value
succeeds exactly if it does; it leaves a known key at its place and puts a new one at the end, and
when a key is removed the others stay in their order. -/
theorem keys_keep_their_order (calls : List EntryCall) :
    let p := after calls
    let keys := p.metadata.keys
    keys.Nodup ∧
      p.metadata = keys.zip p.metadata.values ∧ keys.length = p.metadata.values.length ∧
      (∀ key, (∃ value, p.get key = .ok value) ↔ key ∈ keys) ∧
      (∀ key value, p.get key = .ok value ↔ LastStored calls key value) ∧
      keys.Pairwise (InsertedBefore calls) ∧
      (∀ call key, call.target? = some key →
        ((∃ reply, (perform p call).1 = .ok reply) ↔ ∃ value, call.Stores key value)) ∧
      (∀ call key value, call.Stores key value →
        (perform p call).2.metadata.keys = if key ∈ keys then keys else keys ++ [key]) ∧
      ∀ key, (perform p (.remove key)).2.metadata.keys = keys.filter (· ≠ key) := by
  intro p keys
  have hpairwise := pairwise_insertedBefore calls
  refine ⟨hpairwise.imp InsertedBefore.ne, ?_, ?_, ?_, ?_, hpairwise, ?_, ?_, ?_⟩
  · exact (List.zip_map'.trans (List.map_id _)).symm
  · simp [keys, Entries.keys, Entries.values]
  · intro key
    simp only [get_eq_ok_iff]
    rw [← Option.isSome_iff_exists, ← Option.ne_none_iff_isSome, ne_eq, Entries.get?_eq_none_iff,
      not_not]
  · intro key value
    rw [get_eq_ok_iff, get?_after]
  · intro call key htarget
    exact exists_reply_iff htarget
  · intro call key value hstores
    rw [metadata_perform_of_stores hstores, Entries.keys_insert]
  · intro key
    rw [metadata_perform_remove, Entries.keys_erase]

/-- A key that was removed and stored again comes behind one that was inserted in the meantime, also
if that one was stored again last, and a refused value moves nothing. -/
theorem keys_keep_their_order_reinserted :
    let calls :=
      [.setValue "a" .null, .setValue "b" (.bool true), .remove "a", .setValue "a" (.text "x"),
      .set "c" ⟨"Handle", .failing "no"⟩, .setValue "b" (.integer 2)]
    (after calls).metadata.keys = ["b", "a"] ∧ LastStored calls "a" (.text "x") ∧
      (after calls).get "a" = .ok (.text "x") ∧ InsertedBefore calls "b" "a" := by
  intro calls
  have hkeys : (after calls).metadata.keys = ["b", "a"] := by decide +kernel
  have hstored : LastStored calls "a" (.text "x") :=
    ⟨[.setValue "a" .null, .setValue "b" (.bool true), .remove "a"], .setValue "a" (.text "x"),
      [.set "c" ⟨"Handle", .failing "no"⟩, .setValue "b" (.integer 2)], rfl,
      .setValue (by decide +kernel), by simp [drops_iff]⟩
  obtain ⟨-, -, -, -, hlast, hpairwise, -⟩ := keys_keep_their_order calls
  have hbefore : ["b", "a"].Pairwise (InsertedBefore calls) := hkeys ▸ hpairwise
  exact ⟨hkeys, hstored, (hlast "a" _).2 hstored, List.pairwise_pair.1 hbefore⟩

end EntryCall

end Parcel
