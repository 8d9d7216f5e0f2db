import Parcel.Proofs.Metadata.Conversion

/-!
# The first offence in an item

An item that has no place in metadata is walked from the root, depth first: an item is looked at
before what it contains, the items of an array are walked in order, and of an entry of a map first
the key has to be a text, then the whole value is walked, then the key has to differ from those
before it in this map. The walk makes a list of places, each with the path that leads to it, and no
place knows of its siblings. What is reported is the first offence in this list.

The conversion goes the other way about it: a rejection starts where the offender stands, and is
given a step by every container on the way out. Put behind the path on which the walk came in, the
steps on the way out are the path of the walk.

## Main definitions

* `Inspection`: a place in the walk, and what is looked at there
* `Inspection.offence?`: what is wrong there
* `Cbor.Item.inspections`: the walk of an item
* `Cbor.Item.Leads`: the part of an item at the end of a path
* `Cbor.Item.toJsonOn`: the conversion with one text for the path, which is put behind and cut back

## Main results

* `Cbor.Item.findSome?_inspections`: the conversion reports the first offence
* `Cbor.Item.standsIn_of_mem_inspections`: every place of the walk is where its path leads
* `Cbor.Item.toJsonOn_eq`: one text for the path comes back as it was from every part
* `Cbor.Item.rejection_names_the_first_offence`: both for an item that is to be stored
-/

namespace Parcel

open Cbor (Item)

/-! ## The walk -/

/-- **A place in the walk of an item**, with the path that leads to it, and what is looked at. -/
inductive Inspection
  /-- An item, in which at most `levels` containers may lie inside each other. -/
  | part (path : Path) (levels : Nat) (item : Item)
  /-- The key of an entry of the map at `path`, which has to be a text. -/
  | key (path : Path) (key : Item)
  /-- The entry at `path`, whose key has to differ from the keys `seen` before it in its map. -/
  | fresh (path : Path) (seen : List String) (key : String)

/-- **What is wrong** at a place. -/
def Inspection.offence? : Inspection → Option Rejection
  | .part path _ (.integer n) =>
    if Json.isIntegerInRange n then none
    else some ⟨path, (Item.integer n).describe, .integerRange⟩
  | .part path _ (.double x) =>
    if x.isFinite then none else some ⟨path, (Item.double x).describe, .notFinite⟩
  | .part path _ (.bytes b) => some ⟨path, (Item.bytes b).describe, .byteString⟩
  | .part path _ (.tag number content) =>
    some ⟨path, (Item.tag number content).describe, .taggedValue⟩
  | .part path 0 (.array _) => some ⟨path, "array", .tooDeep⟩
  | .part path 0 (.map _) => some ⟨path, "map", .tooDeep⟩
  | .part _ _ _ => none
  | .key _ (.text _) => none
  | .key path item => some ⟨path, item.describe, .keyNotText⟩
  | .fresh path seen name =>
    if name ∈ seen then some ⟨path, Quoted.text name, .keyRepeated⟩ else none

/-- The path that leads to a place. -/
def Inspection.path : Inspection → Path
  | .part path _ _ => path
  | .key path _ => path
  | .fresh path _ _ => path

/-- An offence is reported where it was found. -/
theorem Inspection.path_eq_of_offence?_eq_some {e : Inspection} {r : Rejection}
    (h : e.offence? = some r) : r.path = e.path := by
  unfold offence? at h
  split at h
  all_goals first | contradiction | (split at h <;> cases h; rfl) | (cases h; rfl)

namespace Cbor.Item

mutual

/-- **The walk** of an item at the end of `path`, in which at most `levels` containers may lie
inside each other. -/
def inspections (levels : Nat) (path : Path) : Item → List Inspection
  | .array items =>
    .part path levels (.array items) :: inspectionsOfItems (levels - 1) path 0 items
  | .map entries =>
    .part path levels (.map entries) :: inspectionsOfEntries (levels - 1) path [] entries
  | item => [.part path levels item]

/-- The walk of the items of the array at `path`, the first of them at `index`. -/
def inspectionsOfItems (levels : Nat) (path : Path) (index : Nat) : List Item → List Inspection
  | [] => []
  | item :: rest =>
    inspections levels (path ++ [.index index]) item ++
      inspectionsOfItems levels path (index + 1) rest

/-- The walk of the entries of the map at `path` behind those with the keys `seen`. No step leads to
the value of an entry whose key is no text. -/
def inspectionsOfEntries (levels : Nat) (path : Path) (seen : List String) :
    List (Item × Item) → List Inspection
  | [] => []
  | (.text key, item) :: rest =>
    .key path (.text key) :: inspections levels (path ++ [.key key]) item ++
      .fresh (path ++ [.key key]) seen key :: inspectionsOfEntries levels path (key :: seen) rest
  | (key, _) :: rest => .key path key :: inspectionsOfEntries levels path seen rest

end

variable {levels index : Nat} {path : Path} {seen : List String} {item root : Item}
  {items : List Item} {entries : List (Item × Item)} {r : Rejection}

/-! ## The first offence -/

/-- What a conversion at the end of `path` reports, as seen from the root. -/
def reported {α : Type} (path : Path) : Except Rejection α → Option Rejection
  | .ok _ => none
  | .error r => some { r with path := path ++ r.path }

theorem reported_map {α β : Type} (f : α → β) (result : Except Rejection α) :
    reported path (result.map f) = reported path result := by
  cases result <;> rfl

theorem reported_under {α β : Type} (step : Step) (r : Rejection) :
    reported (α := α) path (.error (r.under step)) =
      reported (α := β) (path ++ [step]) (.error r) := by
  simp [reported, Rejection.under]

theorem findSome?_inspectionsOfItems
    (h : ∀ item ∈ items, ∀ path, (inspections levels path item).findSome? Inspection.offence? =
      reported path (toJson levels item)) :
    (inspectionsOfItems levels path index items).findSome? Inspection.offence? =
      reported path (itemsToJson levels index items) := by
  induction items generalizing index with
  | nil => rfl
  | cons item rest ih =>
    rw [List.forall_mem_cons] at h
    rw [inspectionsOfItems, List.findSome?_append, h.1, ih h.2, itemsToJson]
    cases toJson levels item with
    | error r => exact (reported_under (β := Json) (.index index) r).symm
    | ok value => exact (reported_map _ _).symm

theorem findSome?_inspectionsOfEntries
    (h : ∀ entry ∈ entries, ∀ path,
      (inspections levels path entry.2).findSome? Inspection.offence? =
        reported path (toJson levels entry.2)) :
    (inspectionsOfEntries levels path seen entries).findSome? Inspection.offence? =
      reported path (entriesToJson levels seen entries) := by
  induction entries generalizing seen with
  | nil => rfl
  | cons entry rest ih =>
    obtain ⟨key, item⟩ := entry
    rw [List.forall_mem_cons] at h
    cases key with
    | text key =>
      have hkey : (Inspection.key path (.text key)).offence? = none := rfl
      rw [inspectionsOfEntries, List.findSome?_append, List.findSome?_cons, hkey, h.1,
        List.findSome?_cons, ih h.2, entriesToJson]
      cases toJson levels item with
      | error r => exact (reported_under (β := Json) (.key key) r).symm
      | ok value =>
        by_cases hseen : key ∈ seen
        · simp [Inspection.offence?, reported, hseen]
        · simp [Inspection.offence?, reported_map, hseen, reported.eq_1]
    | _ =>
      -- a key that is no text is the offence, and nothing behind it counts
      simp [inspectionsOfEntries, List.findSome?_cons, Inspection.offence?, entriesToJson, reported,
        Rejection.atRoot]

/-- **The conversion reports the first offence** of the walk. -/
theorem findSome?_inspections :
    (inspections levels path item).findSome? Inspection.offence? =
      reported path (toJson levels item) := by
  -- like the conversion, the walk inspects a container first and then what is inside, in order
  induction item using inductionOn generalizing levels path with
  | integer n =>
    by_cases hrange : Json.isIntegerInRange n = true
    · simp [inspections, Inspection.offence?, toJson, reported, hrange]
    · simp [inspections, Inspection.offence?, toJson, reported, Rejection.atRoot, hrange]
  | double x =>
    by_cases hfinite : x.isFinite = true
    · simp [inspections, Inspection.offence?, toJson, reported, hfinite]
    · simp [inspections, Inspection.offence?, toJson, reported, Rejection.atRoot, hfinite]
  | array items ih =>
    cases levels with
    | zero => simp [inspections, Inspection.offence?, toJson, reported, Rejection.tooDeep]
    | succ levels =>
      rw [inspections, List.findSome?_cons, Nat.add_sub_cancel,
        findSome?_inspectionsOfItems fun item hmem _ => ih item hmem, toJson, reported_map]
      rfl
  | map entries ih =>
    cases levels with
    | zero => simp [inspections, Inspection.offence?, toJson, reported, Rejection.tooDeep]
    | succ levels =>
      rw [inspections, List.findSome?_cons, Nat.add_sub_cancel,
        findSome?_inspectionsOfEntries fun entry hmem _ => ih entry hmem, toJson, reported_map]
      rfl
  | _ => simp [inspections, Inspection.offence?, toJson, reported, Rejection.atRoot]

/-! ## Where places stand -/

/-- **The part of an item at the end of a path.** An index leads from an array to one of its items,
and a key leads from a map to the value of an entry with this key. -/
inductive Leads (root : Item) : Path → Item → Prop
  | root : Leads root [] root
  | index {path : Path} {items : List Item} {i : Nat} {item : Item}
      (around : Leads root path (.array items)) (hitem : items[i]? = some item) :
      Leads root (path ++ [.index i]) item
  | key {path : Path} {entries : List (Item × Item)} {key : String} {item : Item}
      (around : Leads root path (.map entries)) (hentry : (.text key, item) ∈ entries) :
      Leads root (path ++ [.key key]) item

end Cbor.Item

/-- **A place is where its path leads** from the root. The levels left for an item there are those
of the root less one for each container around it. A key belongs to an entry of the map, and the
keys that were seen are those of the entries of the map before the one at the end of the path. -/
def Inspection.StandsIn (root : Item) (levels : Nat) : Inspection → Prop
  | .part path left item => root.Leads path item ∧ left = levels - path.length
  | .key path item => ∃ entries value, root.Leads path (.map entries) ∧ (item, value) ∈ entries
  | .fresh path seen name => ∃ around before value behind, path = around ++ [.key name] ∧
      root.Leads around (.map (before ++ (.text name, value) :: behind)) ∧
      ∀ other, other ∈ seen ↔ .text other ∈ before.map Prod.fst

namespace Cbor.Item

variable {levels index : Nat} {path : Path} {seen : List String} {item root : Item}
  {items : List Item} {entries : List (Item × Item)} {e : Inspection}

/-- A place in the walk of items is in the walk of one of them. -/
theorem exists_of_mem_inspectionsOfItems (he : e ∈ inspectionsOfItems levels path index items) :
    ∃ i item, items[i]? = some item ∧
      e ∈ inspections levels (path ++ [.index (index + i)]) item := by
  induction items generalizing index with
  | nil => cases he
  | cons item rest ih =>
    rw [inspectionsOfItems, List.mem_append] at he
    rcases he with he | he
    · exact ⟨0, item, rfl, he⟩
    · obtain ⟨i, item, hitem, he⟩ := ih he
      refine ⟨i + 1, item, hitem, ?_⟩
      rwa [Nat.add_right_comm] at he

/-- **What is looked at of entries** of the map at `path`, behind those with the keys `seen`: a key,
a place in the walk of a value, and where a key has to be new. -/
inductive OfEntries (levels : Nat) (path : Path) (seen : List String)
    (entries : List (Item × Item)) : Inspection → Prop
  | key {key value : Item} (hentry : (key, value) ∈ entries) :
      OfEntries levels path seen entries (.key path key)
  | value {name : String} {value : Item} {e : Inspection} (hentry : (.text name, value) ∈ entries)
      (he : e ∈ inspections levels (path ++ [.key name]) value) :
      OfEntries levels path seen entries e
  | fresh {name : String} {value : Item} {known : List String} (before : List (Item × Item))
      {behind : List (Item × Item)} (hentries : entries = before ++ (.text name, value) :: behind)
      (hknown : ∀ other, other ∈ known ↔ other ∈ seen ∨ .text other ∈ before.map Prod.fst) :
      OfEntries levels path seen entries (.fresh (path ++ [.key name]) known name)

theorem OfEntries.cons {seen' : List String} {key value : Item}
    (h : OfEntries levels path seen' entries e)
    (hseen : ∀ other, other ∈ seen' ↔ other ∈ seen ∨ .text other = key) :
    OfEntries levels path seen ((key, value) :: entries) e := by
  cases h with
  | key hentry => exact .key (List.mem_cons_of_mem _ hentry)
  | value hentry he => exact .value (List.mem_cons_of_mem _ hentry) he
  | fresh before hentries hknown =>
    refine .fresh ((key, value) :: before) (congrArg (List.cons _) hentries) fun other => ?_
    rw [hknown, hseen, List.map_cons, List.mem_cons, or_assoc]

theorem ofEntries_of_mem (he : e ∈ inspectionsOfEntries levels path seen entries) :
    OfEntries levels path seen entries e := by
  induction entries generalizing seen with
  | nil => cases he
  | cons entry rest ih =>
    obtain ⟨key, value⟩ := entry
    cases key with
    | text name =>
      rw [inspectionsOfEntries, List.mem_append, List.mem_cons, List.mem_cons] at he
      rcases he with (rfl | he) | (rfl | he)
      · exact .key List.mem_cons_self
      · exact .value List.mem_cons_self he
      · exact .fresh [] rfl (by simp)
      · exact (ih he).cons (by simp [or_comm])
    | _ =>
      -- a key that is no text is looked at, and then the entries behind it
      simp only [inspectionsOfEntries, List.mem_cons] at he
      rcases he with rfl | he
      · exact .key List.mem_cons_self
      · exact (ih he).cons (by simp)

/-- **Every place of the walk is where its path leads.** -/
theorem standsIn_of_mem_inspections {limit : Nat} (hroot : Leads root path item)
    (hlevels : levels = limit - path.length) (he : e ∈ inspections levels path item) :
    e.StandsIn root limit := by
  -- a step into a container makes the path longer by one and takes a level away
  induction item using inductionOn generalizing levels path with
  | array items ih =>
    rw [inspections, List.mem_cons] at he
    rcases he with rfl | he
    · exact ⟨hroot, hlevels⟩
    · obtain ⟨i, item, hitem, he⟩ := exists_of_mem_inspectionsOfItems he
      rw [Nat.zero_add] at he
      refine ih item (List.mem_of_getElem? hitem) (.index hroot hitem) ?_ he
      simp [hlevels, Nat.sub_sub]
  | map entries ih =>
    rw [inspections, List.mem_cons] at he
    rcases he with rfl | he
    · exact ⟨hroot, hlevels⟩
    · cases ofEntries_of_mem he with
      | key hentry => exact ⟨entries, _, hroot, hentry⟩
      | value hentry he =>
        refine ih _ hentry (.key hroot hentry) ?_ he
        simp [hlevels, Nat.sub_sub]
      | fresh before hentries hknown =>
        subst hentries
        exact ⟨path, _, _, _, rfl, hroot, by simpa using hknown⟩
  | _ =>
    obtain rfl := List.mem_singleton.1 he
    exact ⟨hroot, hlevels⟩

/-! ## One text for the whole walk -/

/-- A rejection with the text of its path, started from the text that the walk came with. -/
structure Report where
  path : String
  value : String
  reason : Reason

/-- The text up to a length that was noted before anything was put behind it. -/
def cutBack (text : String) (mark : Nat) : String :=
  String.ofList (text.toList.take mark)

theorem cutBack_append (text more : String) : cutBack (text ++ more) text.length = text := by
  rw [cutBack, String.toList_append, ← String.length_toList, List.take_left, String.ofList_toList]

mutual

/-- **The conversion with one text for the path**, which is handed on from part to part: a step is
put behind the text before a part is converted, and the text is cut back to its old length after
that. -/
def toJsonOn (levels : Nat) (text : String) : Item → Except Report (Json × String)
  | .null => .ok (.null, text)
  | .bool b => .ok (.bool b, text)
  | .text s => .ok (.text s, text)
  | .integer n =>
    if Json.isIntegerInRange n then .ok (.integer n, text)
    else .error ⟨text, (integer n).describe, .integerRange⟩
  | .double x =>
    if x.isFinite then .ok (.double x, text) else .error ⟨text, (double x).describe, .notFinite⟩
  | .bytes b => .error ⟨text, (bytes b).describe, .byteString⟩
  | .tag number content => .error ⟨text, (tag number content).describe, .taggedValue⟩
  | .array items =>
    match levels with
    | 0 => .error ⟨text, "array", .tooDeep⟩
    | levels + 1 => (itemsToJsonOn levels text 0 items).map (Prod.map .array id)
  | .map entries =>
    match levels with
    | 0 => .error ⟨text, "map", .tooDeep⟩
    | levels + 1 => (entriesToJsonOn levels text [] entries).map (Prod.map .object id)

/-- The values of the items of an array, the first of them at `index`. -/
def itemsToJsonOn (levels : Nat) (text : String) (index : Nat) :
    List Item → Except Report (List Json × String)
  | [] => .ok ([], text)
  | item :: rest =>
    match toJsonOn levels (text ++ Step.text (.index index)) item with
    | .error report => .error report
    | .ok (value, longer) =>
      (itemsToJsonOn levels (cutBack longer text.length) (index + 1) rest).map
        (Prod.map (value :: ·) id)

/-- The entries of a map behind those with the keys `seen`. A repeated key is reported before the
text is cut back. -/
def entriesToJsonOn (levels : Nat) (text : String) (seen : List String) :
    List (Item × Item) → Except Report (List (String × Json) × String)
  | [] => .ok ([], text)
  | (.text key, item) :: rest =>
    match toJsonOn levels (text ++ Step.text (.key key)) item with
    | .error report => .error report
    | .ok (value, longer) =>
      if key ∈ seen then .error ⟨longer, Quoted.text key, .keyRepeated⟩
      else
        (entriesToJsonOn levels (cutBack longer text.length) (key :: seen) rest).map
          (Prod.map ((key, value) :: ·) id)
  | (key, _) :: _ => .error ⟨text, key.describe, .keyNotText⟩

end

/-- A conversion as one that came with a text sees it: the text is as it was, or the steps of the
path are behind it. -/
def onText {α : Type} (text : String) : Except Rejection α → Except Report (α × String)
  | .ok v => .ok (v, text)
  | .error r => .error ⟨text ++ String.join (r.path.map Step.text), r.value, r.reason⟩

theorem onText_map {α β : Type} (f : α → β) (text : String) (result : Except Rejection α) :
    onText text (result.map f) = (onText text result).map (Prod.map f id) := by
  cases result <;> rfl

theorem onText_under {α : Type} (text : String) (step : Step) (r : Rejection) :
    onText (α := α) text (.error (r.under step)) = onText (text ++ step.text) (.error r) := by
  simp [onText, Rejection.under, String.append_assoc]

theorem itemsToJsonOn_eq {text : String}
    (h : ∀ item ∈ items, ∀ text, toJsonOn levels text item = onText text (toJson levels item)) :
    itemsToJsonOn levels text index items = onText text (itemsToJson levels index items) := by
  induction items generalizing index with
  | nil => rfl
  | cons item rest ih =>
    rw [List.forall_mem_cons] at h
    rw [itemsToJsonOn, itemsToJson, h.1]
    cases toJson levels item with
    | error r => exact (onText_under text (.index index) r).symm
    | ok value =>
      simp only [onText, cutBack_append]
      rw [ih h.2, ← onText_map]
      rfl

theorem entriesToJsonOn_eq {text : String}
    (h : ∀ entry ∈ entries, ∀ text,
      toJsonOn levels text entry.2 = onText text (toJson levels entry.2)) :
    entriesToJsonOn levels text seen entries = onText text (entriesToJson levels seen entries) := by
  induction entries generalizing seen with
  | nil => rfl
  | cons entry rest ih =>
    obtain ⟨key, item⟩ := entry
    rw [List.forall_mem_cons] at h
    cases key with
    | text key =>
      rw [entriesToJsonOn, entriesToJson, h.1]
      cases toJson levels item with
      | error r => exact (onText_under text (.key key) r).symm
      | ok value =>
        simp only [onText, cutBack_append]
        -- the value is converted before its key turns out to be there already
        by_cases hseen : key ∈ seen
        · rw [if_pos hseen, if_pos hseen]
          simp
        · rw [if_neg hseen, if_neg hseen, ih h.2, ← onText_map]
          rfl
    | _ => simp [entriesToJsonOn, entriesToJson, onText, Rejection.atRoot]

/-- **One text suffices for the path**: it comes back as it was from every part that is converted,
so what is reported has the steps to the offender behind it, and no others. -/
theorem toJsonOn_eq {text : String} :
    toJsonOn levels text item = onText text (toJson levels item) := by
  induction item using inductionOn generalizing levels text with
  | integer n =>
    by_cases hrange : Json.isIntegerInRange n = true
    · simp [toJsonOn, toJson, onText, hrange]
    · simp [toJsonOn, toJson, onText, Rejection.atRoot, hrange]
  | double x =>
    by_cases hfinite : x.isFinite = true
    · simp [toJsonOn, toJson, onText, hfinite]
    · simp [toJsonOn, toJson, onText, Rejection.atRoot, hfinite]
  | array items ih =>
    cases levels with
    | zero => simp [toJsonOn, toJson, onText, Rejection.tooDeep]
    | succ levels =>
      rw [toJsonOn, toJson, onText_map, itemsToJsonOn_eq fun item hmem _ => ih item hmem]
  | map entries ih =>
    cases levels with
    | zero => simp [toJsonOn, toJson, onText, Rejection.tooDeep]
    | succ levels =>
      rw [toJsonOn, toJson, onText_map, entriesToJsonOn_eq fun entry hmem _ => ih entry hmem]
  | _ => simp [toJsonOn, toJson, onText, Rejection.atRoot]

/-- **A rejection names the first offence and its place.** An item is rejected exactly if there is
an offence in its walk, and what is reported is the first: nothing is wrong at any place before it.
The reported path is the one of its place, which leads from the root to the offender, to the map
around a key that is no text, or to the entry whose key was seen before in this map. It is shown as
a dollar sign with its steps behind it, which is what the conversion with one text for the path
reports too. -/
theorem rejection_names_the_first_offence (root : Item) (r : Rejection) :
    (root.toEntryValue = .error r ↔ ∃ before found behind,
      inspections 63 [] root = before ++ found :: behind ∧
        (∀ e ∈ before, e.offence? = none) ∧ found.offence? = some r ∧
        found.StandsIn root 63 ∧ r.path = found.path ∧
        Path.text r.path = "$" ++ String.join (found.path.map Step.text)) ∧
      (root.toEntryValue = .error r →
        toJsonOn 63 "$" root = .error ⟨Path.text r.path, r.value, r.reason⟩) := by
  have hreported : reported [] (toJson 63 root) = some r ↔ root.toEntryValue = .error r := by
    change _ ↔ toJson 63 root = .error r
    cases toJson 63 root <;> simp [reported]
  refine ⟨?_, fun h => toJsonOn_eq.trans (congrArg (onText "$") h)⟩
  rw [← hreported, ← findSome?_inspections, List.findSome?_eq_some_iff]
  constructor
  · rintro ⟨before, found, behind, hwalk, hfound, hbefore⟩
    have hpath := Inspection.path_eq_of_offence?_eq_some hfound
    have hmem : found ∈ inspections 63 [] root := by
      rw [hwalk]
      exact List.mem_append_right _ List.mem_cons_self
    exact ⟨before, found, behind, hwalk, hbefore, hfound,
      standsIn_of_mem_inspections .root rfl hmem, hpath, congrArg Path.text hpath⟩
  · rintro ⟨before, found, behind, hwalk, hbefore, hfound, -⟩
    exact ⟨before, found, behind, hwalk, hfound, hbefore⟩

/-- A key that is repeated in the second of two maps, the first of which has the key too. -/
theorem rejection_names_the_first_offence_repeated :
    let first : Item := .map [(.text "k", .null)]
    let second : Item := .map [(.text "k", .null), (.text "k", .array [.null])]
    let r : Rejection := ⟨[.index 1, .key "k"], Quoted.text "k", .keyRepeated⟩
    (array [first, second]).toEntryValue = .error r ∧
      toJsonOn 63 "$" (array [first, second]) =
        .error ⟨"$[1].k", Quoted.text "k", .keyRepeated⟩ := by
  intro first second r
  have hrejected : (array [first, second]).toEntryValue = .error r := by
    simp [first, second, r, toEntryValue, maxDepth, toJson, itemsToJson, entriesToJson, Except.map,
      Rejection.under]
  exact ⟨hrejected, (rejection_names_the_first_offence _ r).2 hrejected⟩

end Cbor.Item

end Parcel
