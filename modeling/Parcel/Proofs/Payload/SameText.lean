import Parcel.Proofs.Json.SameText
import Parcel.Proofs.Payload.Equality
import Parcel.Proofs.Text.ByteOrder

/-!
# Equal objects with the same text

For people the entries of a payload are written in the order of their keys, so the order in which
they were inserted is not seen. This goes for the entries of the mapping itself. A value inside it
is written as it is, with the entries of an object in their own order and with the signs of zeros,
and equality looks at neither. So equal objects have the same text exactly if their mappings hold
the same values.

Each text is put behind those before it with a separator, and none of them has its length before it.
That the parts can be told apart nevertheless is due to equality: keys and arguments are the same,
so they are followed by the texts of two equal values.

## Main definitions

* `Payload.separated`: texts with a separator before each
* `Payload.listed`: the entries in the order of their keys

## Main results

* `Payload.listed_eq_of_perm`: the order of insertion does not matter
* `Payload.intercalate_parts_eq_iff`: when equal payloads are written alike
* `Object.equal_objects_share_text`: when equal objects are, of either kind
-/

namespace Parcel

open Json

namespace Payload

variable {p q : Payload} {text : String} {texts others : List String}

/-! ## Texts with separators -/

/-- Texts with a separator before each, also before the first. -/
def separated (texts : List String) : List Char :=
  texts.flatMap fun text => ',' :: ' ' :: text.toList

theorem separated_cons :
    separated (text :: texts) = ',' :: ' ' :: (text.toList ++ separated texts) :=
  rfl

theorem separated_append : separated (texts ++ others) = separated texts ++ separated others :=
  List.flatMap_append

/-- Separators stand between the texts, and one more before them all. -/
theorem separated_eq_cons (h : texts ≠ []) :
    separated texts = ',' :: ' ' :: (String.intercalate ", " texts).toList := by
  induction texts with
  | nil => contradiction
  | cons text rest ih =>
    cases rest with
    | nil => simp [separated]
    | cons next rest =>
      rw [separated_cons, ih (List.cons_ne_nil next rest)]
      simp [String.toList_intercalate]

/-- As many texts are the same with separators between them if they are with one before each. -/
theorem intercalate_eq_iff (hlength : texts.length = others.length) :
    String.intercalate ", " texts = String.intercalate ", " others ↔
      separated texts = separated others := by
  by_cases htexts : texts = []
  · subst htexts
    rw [List.eq_nil_of_length_eq_zero hlength.symm]
    exact iff_of_true rfl rfl
  · have hothers : others ≠ [] := by
      rwa [← List.length_pos_iff, ← hlength, List.length_pos_iff]
    rw [separated_eq_cons htexts, separated_eq_cons hothers, List.cons.injEq, List.cons.injEq,
      String.toList_inj]
    simp

/-- A number ends where the next part begins. -/
theorem ends_separated (texts : List String) : Numeral.Ends (separated texts) := by
  cases texts with
  | nil => exact nofun
  | cons text rest => exact ends_cons (by decide) (by decide) (by decide) (by decide)

/-! ## Entries in the order of their keys -/

/-- The entries of a payload in the order of their keys. -/
def listed (p : Payload) : Entries :=
  p.metadata.mergeSort fun a b => Utf8.byteOrder a.1 b.1

/-- The text of an entry. -/
def entryText (entry : String × Json) : String :=
  entry.1 ++ "=" ++ entry.2.toText

theorem toList_entryText (key : String) (value : Json) :
    (entryText (key, value)).toList = key.toList ++ '=' :: render value := by
  simp [entryText, toText]

theorem parts_eq (p : Payload) :
    p.parts = p.args.map (fun arg => "b'" ++ Quoted.bytes arg ++ "'") ++ p.listed.map entryText :=
  rfl

/-- **The order of insertion does not matter** for the order in which entries are listed. -/
theorem listed_eq_of_perm (hp : p.Lawful) (h : p.metadata.Perm q.metadata) : p.listed = q.listed :=
  mergeSort_eq_of_perm Utf8.byteOrder_trans Utf8.byteOrder_total Utf8.byteOrder_antisymm h
    (proper_object.1 hp.proper).1

/-- Entries that are made of others with the same keys are listed as these are. -/
theorem listed_eq_map {α : Type} {pairs : List (String × α)} {value : String × α → Json}
    (hp : p.Lawful) (h : p.metadata.Perm (pairs.map fun pair => (pair.1, value pair))) :
    p.listed = (pairs.mergeSort fun a b => Utf8.byteOrder a.1 b.1).map
      fun pair => (pair.1, value pair) := by
  have hlisted := @listed_eq_of_perm p ⟨[], pairs.map fun pair => (pair.1, value pair)⟩ hp h
  rw [hlisted, listed]
  refine (List.map_mergeSort ?_).symm
  intro pair _ other _
  rfl

/-- **Equal payloads list equal values**, one by one under the same keys. -/
theorem exists_listed (hp : p.Lawful) (hq : q.Lawful) (h : p.same q = true) :
    ∃ pairs : List (String × Json × Json), p.listed = pairs.map (fun pair => (pair.1, pair.2.1)) ∧
      q.listed = pairs.map (fun pair => (pair.1, pair.2.2)) ∧
      ∀ pair ∈ pairs, Proper pair.2.1 ∧ Proper pair.2.2 ∧ pair.2.1.same pair.2.2 = true := by
  cases ((same_iff hp hq).1 h).2 with
  | object pairs left right inside =>
    refine ⟨_, listed_eq_map hp left, listed_eq_map hq right, ?_⟩
    intro pair hmem
    have hpair := List.mem_mergeSort.1 hmem
    have hleft := (proper_object.1 hp.proper).2 _ (left.mem_iff.2 (List.mem_map_of_mem hpair))
    have hright := (proper_object.1 hq.proper).2 _ (right.mem_iff.2 (List.mem_map_of_mem hpair))
    exact ⟨hleft, hright, (inside pair hpair).same hleft hright⟩

/-! ## Equal payloads that are written alike -/

/-- **Equal values under the same keys** are the same if they are written alike. -/
theorem eq_of_separated_eq {pairs : List (String × Json × Json)}
    (hpairs : ∀ pair ∈ pairs, Proper pair.2.1 ∧ Proper pair.2.2 ∧ pair.2.1.same pair.2.2 = true)
    (h : separated (pairs.map fun pair => entryText (pair.1, pair.2.1)) =
      separated (pairs.map fun pair => entryText (pair.1, pair.2.2))) :
    ∀ pair ∈ pairs, pair.2.1 = pair.2.2 := by
  induction pairs with
  | nil => exact nofun
  | cons pair rest ih =>
    obtain ⟨⟨hleft, hright, hsame⟩, hrest⟩ := List.forall_mem_cons.1 hpairs
    simp only [List.map_cons, separated_cons, toList_entryText, List.append_assoc, List.cons_append,
      List.cons.injEq, true_and, List.append_cancel_left_eq] at h
    -- the key is the same, so the two values are at the front, up to the next separator
    obtain ⟨hvalue, hbehind⟩ := eq_of_render_append_eq hleft hright hsame (ends_separated _)
      (ends_separated _) h
    exact List.forall_mem_cons.2 ⟨hvalue, ih hrest hbehind⟩

/-- **When equal payloads are written alike**, behind the same texts: exactly if their mappings hold
the same values. -/
theorem intercalate_parts_eq_iff (hp : p.Lawful) (hq : q.Lawful) (h : p.same q = true)
    (front : List String) :
    String.intercalate ", " (front ++ p.parts) = String.intercalate ", " (front ++ q.parts) ↔
      p.metadata.Perm q.metadata := by
  have hargs := ((same_iff hp hq).1 h).1
  constructor
  · intro htext
    -- both listings have the same keys in the same order, so only their values can differ
    obtain ⟨pairs, hleft, hright, hpairs⟩ := exists_listed hp hq h
    rw [parts_eq, parts_eq, hargs, hleft, hright, intercalate_eq_iff (by simp)] at htext
    simp only [separated_append, List.append_cancel_left_eq, List.map_map] at htext
    have hvalues := eq_of_separated_eq hpairs htext
    have hlisted : p.listed = q.listed := by
      rw [hleft, hright]
      refine List.map_congr_left ?_
      intro pair hmem
      rw [hvalues pair hmem]
    exact (List.mergeSort_perm _ _).symm.trans (.trans (.of_eq hlisted) (List.mergeSort_perm _ _))
  · intro hperm
    rw [parts_eq, parts_eq, hargs, listed_eq_of_perm hp hperm]

/-- Payloads whose mappings hold the same values are equal. -/
theorem same_of_perm (hp : p.Lawful) (hq : q.Lawful) (hargs : p.args = q.args)
    (hperm : p.metadata.Perm q.metadata) : p.same q = true := by
  refine (same_iff hp hq).2 ⟨hargs, ?_⟩
  exact matched_of_same hp.proper hq.proper ((reordered_of_perm hperm).same hp.proper)

end Payload

namespace Object

variable {a b : Object}

/-- Objects with the same names are written alike if their parts are. -/
theorem text_eq_iff (hnames : a.names? = b.names?) : ∃ front : List String,
    (a.text = b.text ↔ String.intercalate ", " (front ++ a.payload.parts) =
      String.intercalate ", " (front ++ b.payload.parts)) := by
  cases a with
  | data p =>
    cases b with
    | data q => exact ⟨[], by simp [text, Payload.text, payload]⟩
    | command d => contradiction
  | command c =>
    cases b with
    | data q => contradiction
    | command d =>
      simp only [names?, Option.some.injEq, Prod.mk.injEq] at hnames
      refine ⟨[c.interface, c.operation].map fun name => "'" ++ name.text ++ "'", ?_⟩
      simp [text, Command.text, payload, hnames]

/-- **Equal objects share their text if their mappings hold the same values.** For payloads and
commands as they can be built, equal ones have the same text exactly if both mappings have the same
entries, in any order: the same value under each key, with the entries of objects inside it in the
same order, and with the same signs of zeros. In particular the order in which the entries of the
mapping were inserted makes no difference, neither for equality nor for the text. -/
theorem equal_objects_share_text :
    (∀ a b : Object, a.Built → b.Built → a.same b = true →
      (a.text = b.text ↔ a.payload.metadata.Perm b.payload.metadata)) ∧
    ∀ a b : Object, a.Built → b.Built → a.names? = b.names? → a.payload.args = b.payload.args →
      a.payload.metadata.Perm b.payload.metadata → a.same b = true ∧ a.text = b.text := by
  have htext : ∀ a b : Object, a.Built → b.Built → a.same b = true →
      (a.text = b.text ↔ a.payload.metadata.Perm b.payload.metadata) := by
    intro a b ha hb h
    obtain ⟨hnames, hpayload⟩ := same_iff.1 h
    obtain ⟨front, hparts⟩ := text_eq_iff hnames
    rw [hparts]
    exact Payload.intercalate_parts_eq_iff ha.lawful hb.lawful hpayload front
  refine ⟨htext, ?_⟩
  intro a b ha hb hnames hargs hperm
  have hsame : a.same b = true :=
    same_iff.2 ⟨hnames, Payload.same_of_perm ha.lawful hb.lawful hargs hperm⟩
  exact ⟨hsame, (htext a b ha hb hsame).2 hperm⟩

/-- The two entries of a mapping are inserted the other way round, in a payload and in a command. -/
theorem equal_objects_share_text_reordered :
    let inner : Json := .object [("y", .double .zero), ("x", .integer 1)]
    let p : Payload := ⟨[[7]], [("b", inner), ("a", .null)]⟩
    let q : Payload := ⟨[[7]], [("a", .null), ("b", inner)]⟩
    let command (payload : Payload) : Object :=
      .command ⟨⟨"lamp", by decide⟩, ⟨"switch", by decide⟩, payload⟩
    p.Built ∧ q.Built ∧ p.metadata ≠ q.metadata ∧ (Object.data p).same (.data q) = true ∧
      (Object.data p).text = (Object.data q).text ∧ (command p).same (command q) = true ∧
      (command p).text = (command q).text := by
  intro inner p q command
  have hp : p.Built := Payload.Lawful.built (by decide)
  have hq : q.Built := Payload.Lawful.built (by decide)
  have hperm : p.metadata.Perm q.metadata := List.Perm.swap _ _ _
  obtain ⟨-, hreordered⟩ := equal_objects_share_text
  obtain ⟨hsame, htext⟩ := hreordered (.data p) (.data q) hp hq rfl rfl hperm
  obtain ⟨hsame', htext'⟩ := hreordered (command p) (command q) hp hq rfl rfl hperm
  exact ⟨hp, hq, by simp [p, q], hsame, htext, hsame', htext'⟩

/-- **Equal objects with other texts**: the entries of an object inside the mapping were inserted
the other way round, or a zero has the other sign. -/
theorem equal_objects_with_other_texts :
    let payload (value : Json) : Payload := ⟨[], [("o", value)]⟩
    let command (value : Json) : Object :=
      .command ⟨⟨"lamp", by decide⟩, ⟨"switch", by decide⟩, payload value⟩
    let first : Json := .object [("a", .integer 1), ("b", .integer 2)]
    let second : Json := .object [("b", .integer 2), ("a", .integer 1)]
    let plus : Json := .double .zero
    let minus : Json := .double (.neg .zero)
    ((payload first).Built ∧ (payload second).Built ∧
      (Object.data (payload first)).same (.data (payload second)) = true ∧
      (Object.data (payload first)).text = "ArbData(o=\x7b\"a\":1,\"b\":2\x7d)" ∧
      (Object.data (payload second)).text = "ArbData(o=\x7b\"b\":2,\"a\":1\x7d)" ∧
      (command first).same (command second) = true ∧
      (command first).text ≠ (command second).text) ∧
    (payload plus).Built ∧ (payload minus).Built ∧
      (Object.data (payload plus)).same (.data (payload minus)) = true ∧
      (Object.data (payload plus)).text = "ArbData(o=0.0)" ∧
      (Object.data (payload minus)).text = "ArbData(o=-0.0)" := by
  intro payload command first second plus minus
  have hfirst : (payload first).Built := Payload.Lawful.built (by decide)
  have hsecond : (payload second).Built := Payload.Lawful.built (by decide)
  have hplus : (payload plus).Built := Payload.Lawful.built (by decide)
  have hminus : (payload minus).Built := Payload.Lawful.built (by decide)
  exact ⟨⟨hfirst, hsecond, by decide +kernel, by decide +kernel, by decide +kernel,
    by decide +kernel,
    by decide +kernel⟩, hplus, hminus, by decide +kernel, by decide +kernel, by decide +kernel⟩

end Object

end Parcel
