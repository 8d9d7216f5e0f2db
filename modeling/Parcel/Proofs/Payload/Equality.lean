import Parcel.Proofs.Json.Matched
import Parcel.Proofs.Metadata.Equality
import Parcel.Proofs.Payload.KeyOrder
import Parcel.Proofs.Payload.Transport

/-!
# Equality of payloads, commands and objects

Whatever can be built has metadata with unique keys and finite doubles, so its equality is an
equivalence. It means the same arguments in the same order, and the same entries in any order. To
store equal values in equal payloads gives equal payloads, and so does putting an equal value in the
place of one that is there.

## Main definitions

* `Edit.Offers`: edits that are to store a value under a key

## Main results

* `Payload.same_iff`: what equality of payloads means
* `Payload.equivalence_same`, `Object.equivalence_same`: it is an equivalence
* `Payload.same_store`: equal values stored in equal payloads
* `Object.equality_is_lawful`: equality of all that can be built
-/

namespace Parcel

open Json

namespace Entries

variable {as bs : Entries} {key : String} {value other : Json}

/-- Mappings of one size are equal if every key of the first has an equal value in the second. -/
theorem same_iff_get? (ha : (keys as).Nodup) : same as bs = true ↔ as.length = bs.length ∧
    ∀ key value, get? as key = some value →
      ∃ other, get? bs key = some other ∧ value.same other = true := by
  rw [same, Bool.and_eq_true, beq_iff_eq, agree_iff]
  refine and_congr_right fun _ => ⟨fun h key value hvalue => ?_, fun h entry hmem => ?_⟩
  · exact h _ (mem_of_get? hvalue)
  · exact h _ _ (lookup_eq_some_of_mem ha hmem)

theorem length_insert (entries : Entries) (key : String) (value : Json) :
    (insert entries key value).length =
      if key ∈ keys entries then entries.length else entries.length + 1 := by
  have hlength := congrArg List.length (keys_insert entries key value)
  rw [keys, List.length_map] at hlength
  rw [hlength]
  split <;> simp [keys]

/-- A value that is there already is stored again. -/
theorem insert_eq_self (hvalue : get? entries key = some value) :
    insert entries key value = entries := by
  induction entries with
  | nil => contradiction
  | cons entry rest ih =>
    obtain ⟨first, old⟩ := entry
    rw [get?, List.lookup_cons] at hvalue
    rw [insert]
    by_cases hfirst : first = key
    · subst hfirst
      rw [beq_self_eq_true] at hvalue
      rw [if_pos rfl, Option.some.inj hvalue]
    · rw [beq_false_of_ne (Ne.symm hfirst)] at hvalue
      rw [if_neg hfirst, ih hvalue]

/-- **Equal values stored in equal mappings.** -/
theorem same_insert (ha : Proper (.object as)) (hb : Proper (.object bs)) (hvalue : Proper value)
    (h : same as bs = true) (hsame : value.same other = true) :
    same (insert as key value) (insert bs key other) = true := by
  have hkeys := (matched_of_same ha hb h).keys_perm
  rw [same_iff_get? (proper_object.1 ha).1] at h
  obtain ⟨hlength, hfound⟩ := h
  rw [same_iff_get? (proper_object.1 (proper_insert ha hvalue)).1]
  refine ⟨?_, fun place stored hstored => ?_⟩
  · -- equal mappings have the same keys, so the key is new in both or in neither
    rw [length_insert, length_insert, hlength]
    simp only [hkeys.mem_iff]
  · rw [get?_insert] at hstored ⊢
    split at hstored
    · next hplace =>
      cases hstored
      exact ⟨other, if_pos hplace, hsame⟩
    · next hplace =>
      rw [if_neg hplace]
      exact hfound place stored hstored

end Entries

/-! ## Payloads -/

namespace Payload

variable {p q : Payload}

/-- **What equality of payloads means.** -/
theorem same_iff (hp : p.Lawful) (hq : q.Lawful) : p.same q = true ↔
    p.args = q.args ∧ Matched (.object p.metadata) (.object q.metadata) := by
  rw [same, Bool.and_eq_true, beq_iff_eq, ← same_iff_matched hp.proper hq.proper,
    Entries.same_object]

theorem same_self (hp : p.Lawful) : p.same p = true :=
  (same_iff hp hp).2 ⟨rfl, matched_of_same hp.proper hp.proper (Json.same_self hp.proper)⟩

theorem same_symm (hp : p.Lawful) (hq : q.Lawful) (h : p.same q = true) : q.same p = true := by
  obtain ⟨hargs, hmatched⟩ := (same_iff hp hq).1 h
  exact (same_iff hq hp).2 ⟨hargs.symm, hmatched.symm⟩

theorem same_trans {r : Payload} (hpq : p.same q = true) (hqr : q.same r = true) :
    p.same r = true := by
  rw [same, Bool.and_eq_true, beq_iff_eq, ← Entries.same_object] at hpq hqr ⊢
  exact ⟨hpq.1.trans hqr.1, Json.same_trans hpq.2 hqr.2⟩

/-- **Equality of payloads as they can be built is an equivalence.** -/
theorem equivalence_same :
    Equivalence fun p q : {p : Payload // p.Built} => p.1.same q.1 = true where
  refl p := same_self p.2.lawful
  symm {p q} h := same_symm p.2.lawful q.2.lawful h
  trans h h' := same_trans h h'

/-- **Equal values stored in equal payloads.** -/
theorem same_store {key : String} {value other : Json} (hp : p.Lawful) (hq : q.Lawful)
    (hvalue : Proper value) (h : p.same q = true) (hsame : value.same other = true) :
    (p.store key value).2.same (q.store key other).2 = true := by
  rw [same, Bool.and_eq_true] at h ⊢
  exact ⟨h.1, Entries.same_insert hp.proper hq.proper hvalue h.2 hsame⟩

end Payload

/-! ## Equal values in the place of others -/

/-- An edit that is to store a value under a key. -/
inductive Edit.Offers : Edit → String → Json → Prop
  | set {key : String} {offer : Offer} {value : Json} (h : offer.toMetadata = .ok value) :
      Offers (.set key offer) key value
  | setValue (key : String) (value : Json) : Offers (.setValue key value) key value

namespace Payload

variable {p : Payload} {change : Edit} {key : String} {value other : Json}

/-- An edit stores the value if it does not nest too deep. -/
theorem edit_of_offers (hchange : change.Offers key value) (hdepth : value.depth ≤ maxDepth - 1) :
    p.edit change = (.ok (.value (p.store key value).1), (p.store key value).2) := by
  cases hchange with
  | set hvalue =>
    rw [edit, Payload.set, hvalue]
    rfl
  | setValue =>
    rw [edit, setValue, Json.check_eq_ok_iff.2 hdepth]
    rfl

theorem proper_of_offers (hchange : change.Offers key value) (hproper : change.Proper) :
    Proper value := by
  cases hchange with
  | set hvalue => exact (Offer.of_toMetadata hvalue).1
  | setValue => exact hproper

/-- **An equal value in the place of another.** The edit succeeds, as equal values nest equally
deep. -/
theorem edit_of_same (hp : p.Lawful) (hvalue : p.metadata.get? key = some value)
    (hchange : change.Offers key other) (hproper : change.Proper)
    (hsame : value.same other = true) :
    ∃ changed, p.edit change = (.ok (.value (some value)), changed) ∧ p.same changed = true := by
  have hmem := Entries.mem_of_get? hvalue
  have hstored : Proper value := (proper_object.1 hp.proper).2 _ hmem
  have hother := proper_of_offers hchange hproper
  have hdepth : other.depth ≤ maxDepth - 1 := by
    rw [← ((same_iff_matched hstored hother).1 hsame).depth_le_iff]
    exact depth_object_le_succ.1 (Entries.check_eq_ok_iff.1 hp.check) _ hmem
  have hself : (p.store key value).2 = p := by
    rw [store, Entries.insert_eq_self hvalue]
  refine ⟨(p.store key other).2, ?_, ?_⟩
  · rw [edit_of_offers hchange hdepth, store, hvalue]
  · have hkept := @same_store p p key _ _ hp hp hstored (same_self hp) hsame
    rwa [hself] at hkept

end Payload

/-! ## Objects -/

namespace Object

/-- Objects are equal if they have one kind, the same names and equal payloads. -/
theorem same_iff {a b : Object} :
    a.same b = true ↔ a.names? = b.names? ∧ a.payload.same b.payload = true := by
  cases a <;> cases b <;> simp [same, names?, payload, Command.same]

theorem equivalence_same :
    Equivalence fun a b : {object : Object // object.Built} => a.1.same b.1 = true where
  refl a := same_iff.2 ⟨rfl, Payload.same_self a.2.lawful⟩
  symm {a b} h := by
    obtain ⟨hnames, hpayload⟩ := same_iff.1 h
    exact same_iff.2 ⟨hnames.symm, Payload.same_symm a.2.lawful b.2.lawful hpayload⟩
  trans hab hbc := by
    obtain ⟨hnames, hpayload⟩ := same_iff.1 hab
    obtain ⟨hnames', hpayload'⟩ := same_iff.1 hbc
    exact same_iff.2 ⟨hnames.trans hnames', Payload.same_trans hpayload hpayload'⟩

/-- **Equality is lawful.** For payloads as they can be built it is reflexive, symmetric and
transitive, and so it is for objects around them. Payloads are equal exactly if they have the same
arguments in the same order and metadata with the same content, in which doubles are compared as
numbers and the order of entries does not matter at any level; no integer is equal to a double. An
equal value can be put in the place of one that is there, and gives an equal object. A payload never
equals a command, and two commands are equal exactly if their names and their payloads are. -/
theorem equality_is_lawful :
    (Equivalence fun p q : {p : Payload // p.Built} => p.1.same q.1 = true) ∧
      (Equivalence fun a b : {object : Object // object.Built} => a.1.same b.1 = true) ∧
      (∀ p q : Payload, p.Built → q.Built → (p.same q = true ↔
        p.args = q.args ∧ Matched (.object p.metadata) (.object q.metadata))) ∧
      (∀ n x, (Json.integer n).same (.double x) = false ∧
        (Json.double x).same (.integer n) = false) ∧
      (∀ (object : Object) (change : Edit) (key : String) (value other : Json), object.Built →
        object.payload.get key = .ok value → change.Offers key other → change.Proper →
        value.same other = true → ∃ changed,
          object.edit change = (.ok (.value (some value)), changed) ∧ object.same changed = true) ∧
      (∀ p c, (Object.data p).same (.command c) = false ∧
        (Object.command c).same (.data p) = false) ∧
      ∀ c d : Command, (Object.command c).same (.command d) = true ↔
        c.interface = d.interface ∧ c.operation = d.operation ∧
          c.payload.same d.payload = true := by
  refine ⟨Payload.equivalence_same, equivalence_same, ?_, ?_, ?_, fun p c => ⟨rfl, rfl⟩, ?_⟩
  · intro p q hp hq
    exact Payload.same_iff hp.lawful hq.lawful
  · intro n x
    rw [Json.same, Json.same] <;> simp
  · intro object change key value other hbuilt hvalue hchange hproper hsame
    obtain ⟨changed, hedit, hequal⟩ := Payload.edit_of_same hbuilt.lawful
      (EntryCall.get_eq_ok_iff.1 hvalue) hchange hproper hsame
    refine ⟨object.withPayload changed, ?_, same_iff.2 ⟨?_, ?_⟩⟩
    · rw [edit, hedit]
    · rw [names?_withPayload]
    · rwa [payload_withPayload]
  · intro c d
    simp [same_iff, names?, payload, and_assoc]

/-- A double zero is replaced by the one with the other sign, in an object whose entries are listed
the other way round than in the one that it is compared with. -/
theorem equality_is_lawful_zeros :
    let inner : Json := .object [("x", .integer 1), ("y", .double .zero)]
    let inner' : Json := .object [("y", .double (.neg .zero)), ("x", .integer 1)]
    let p : Payload := ⟨[[7]], [("a", inner), ("b", .null)]⟩
    p.Built ∧ inner.same inner' = true ∧ ∃ changed,
      (Object.data p).edit (.setValue "a" inner') = (.ok (.value (some inner)), changed) ∧
        (Object.data p).same changed = true := by
  intro inner inner' p
  have hinner' : Proper inner' := by decide
  have hbuilt : p.Built := Payload.Lawful.built (by decide)
  have hsame : inner.same inner' = true := by decide +kernel
  obtain ⟨-, -, -, -, hreplace, -⟩ := equality_is_lawful
  exact ⟨hbuilt, hsame, hreplace (.data p) _ "a" inner inner' hbuilt rfl (.setValue "a" inner')
    hinner' hsame⟩

end Object

end Parcel
