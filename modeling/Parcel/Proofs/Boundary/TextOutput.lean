import Parcel.Proofs.Boundary.Getters
import Parcel.Proofs.Boundary.Names
import Parcel.Proofs.Metadata.DoublesInText

/-!
# Texts reach their callers whole

A caller who is given a terminated text reads it up to the first terminator. Whatever is stored
under a live handle, no text that is made of it has a terminator of its own. Keys and texts in the
metadata are escaped, and so are the bytes of arguments. Names are not, but no store comes to hold
one that is no identifier.

For the same reason nothing that is stored can begin a new line in the text for people: it has one
line for each argument, and three or five more.

## Main definitions

* `Printable`: texts without controls
* `Lines`: texts that consist of so many lines
* `Memory.terminated?`: what a reader of terminated text sees in memory
* `Getter.Reaches`: an item that reaches every caller whole

## Main results

* `Entries.printable_toText`, `Store.lines_dump`: texts of what is stored
* `Lines.count_newline`, `Lines.getLast?_bytes`: lines in the bytes of a text
* `Getter.reaches_of_printable`: texts without a terminator reach their callers whole
* `text_outputs_are_never_cut`: all texts of all live handles
-/

namespace Parcel

/-- The byte that ends a line. -/
def newline : UInt8 := 0x0a

/-! ## Texts without controls -/

/-- **Printable texts**: no character of them is a control. -/
def Printable (s : String) : Prop :=
  ∀ c ∈ s.toList, 0x20 ≤ c.toNat

variable {s t : String}

instance : Decidable (Printable s) :=
  decidable_of_iff (s.toList.all fun c => 0x20 ≤ c.toNat) (by simp [Printable])

theorem Printable.append (hs : Printable s) (ht : Printable t) : Printable (s ++ t) := by
  rw [Printable, String.toList_append, List.forall_mem_append]
  exact ⟨hs, ht⟩

/-- No byte of a printable text is a control. -/
theorem Printable.le_of_mem_bytes (hs : Printable s) : ∀ byte ∈ Utf8.bytes s, 0x20 ≤ byte := by
  intro byte hmem
  rw [UInt8.le_iff_toNat_le]
  exact Utf8.le_of_mem_bytes (by decide) hs byte hmem

theorem Printable.not_mem_bytes {byte : UInt8} (hs : Printable s) (hbyte : byte < 0x20) :
    byte ∉ Utf8.bytes s := by
  intro hmem
  exact absurd (hs.le_of_mem_bytes byte hmem) (UInt8.not_le.2 hbyte)

/-- A digit is a digit or a letter, in every base that has them. -/
theorem printable_toDigits {base : Nat} (hbase : 1 < base) (hle : base ≤ 16) (n : Nat) :
    Printable (String.ofList (Nat.toDigits base n)) := by
  rw [Printable, String.toList_ofList]
  -- the last digit is that of the remainder, and those before it are the digits of the quotient
  induction n using Nat.strongRecOn with
  | ind n ih =>
    have hdigit {d : Nat} (hd : d < base) : 0x20 ≤ (Nat.digitChar d).toNat :=
      (Quoted.isPrintable_digitChar (Nat.lt_of_lt_of_le hd hle)).1
    rw [Nat.toDigits_eq_if hbase]
    split
    · next hlt => exact List.forall_mem_singleton.2 (hdigit hlt)
    · next hge =>
      have hsmaller : n / base < n := Nat.div_lt_self (by omega) hbase
      rw [List.forall_mem_append]
      exact ⟨ih _ hsmaller, List.forall_mem_singleton.2 (hdigit (Nat.mod_lt _ (by omega)))⟩

theorem printable_toString (n : Nat) : Printable (toString n) := by
  rw [Nat.toString_eq_repr, Nat.repr_eq_ofList_toDigits]
  exact printable_toDigits (by decide) (by decide) n

theorem Handle.printable_text (h : Handle) : Printable h.text := by
  have hdigits : Printable (String.ofList (Nat.toDigits 16 h.toNat)) :=
    printable_toDigits (by decide) (by decide) _
  rw [Printable, String.toList_ofList] at hdigits
  rw [Printable, Handle.text, Quoted.hexadecimal, String.toList_ofList, List.forall_mem_cons,
    List.forall_mem_cons]
  exact ⟨by decide, by decide, hdigits⟩

theorem Quoted.printable_bytes (b : Bytes) : Printable (Quoted.bytes b) := by
  rw [Printable, Quoted.bytes, String.toList_ofList]
  intro c hc
  obtain ⟨byte, -, hmem⟩ := List.mem_flatMap.1 hc
  exact (Quoted.isPrintable_of_mem_byte hmem).1

/-- Names are not escaped, but none of their characters is a control. -/
theorem printable_of_isIdentifier (hs : isIdentifier s = true) : Printable s := by
  have hall : ∀ n < 0x80, isIdentifierCharacter (Char.ofNat n) = true → 0x20 ≤ n := by decide
  rw [isIdentifier, Bool.and_eq_true, List.all_eq_true] at hs
  intro c hc
  have hcharacter := hs.2 c hc
  refine hall c.toNat (toNat_lt_of_isIdentifierCharacter hcharacter) ?_
  rwa [Char.ofNat_toNat]

/-- **The text of proper metadata** has no controls, whatever its keys and texts hold. -/
theorem Entries.printable_toText {m : Entries} (hm : Json.Proper (.object m)) :
    Printable m.toText := by
  rw [Printable, Entries.toText, Json.toText, String.toList_ofList]
  exact Json.space_le_of_mem_render hm (Json.reread_of_proper hm)

/-! ## Lines -/

/-- **Texts that consist of lines**: so many printable texts, each with the end of a line behind
it. -/
inductive Lines : Nat → String → Prop
  | nil : Lines 0 ""
  | cons {count : Nat} {line rest : String} (hline : Printable line) (hrest : Lines count rest) :
      Lines (count + 1) (line ++ "\n" ++ rest)

namespace Lines

variable {count : Nat}

theorem single (hs : Printable s) : Lines 1 (s ++ "\n") := by
  have h := Lines.cons hs .nil
  rwa [String.append_empty] at h

theorem append {m n : Nat} (hs : Lines m s) (ht : Lines n t) : Lines (m + n) (s ++ t) := by
  induction hs with
  | nil => rwa [Nat.zero_add, String.empty_append]
  | cons hline _ ih =>
    rw [String.append_assoc, Nat.succ_add]
    exact .cons hline ih

theorem join {α : Type} {line : α → String} (hline : ∀ a, Printable (line a)) (as : List α) :
    Lines as.length (String.join (as.map fun a => line a ++ "\n")) := by
  induction as with
  | nil => exact .nil
  | cons a as ih =>
    rw [List.map_cons, String.join_cons]
    exact .cons (hline a) ih

theorem bytes_append_newline (line rest : String) :
    Utf8.bytes (line ++ "\n" ++ rest) = Utf8.bytes line ++ newline :: Utf8.bytes rest := by
  simp only [Utf8.bytes_eq_flatMap, String.toList_append, List.flatMap_append, List.append_assoc]
  rfl

/-- **Newlines end lines**, and there are no others. -/
theorem count_newline (h : Lines count s) : (Utf8.bytes s).count newline = count := by
  induction h with
  | nil => rfl
  | cons hline _ ih =>
    have hnone :=
      List.count_eq_zero_of_not_mem (hline.not_mem_bytes (show newline < 0x20 by decide))
    rw [bytes_append_newline, List.count_append, hnone, List.count_cons_self, ih, Nat.zero_add]

/-- All bytes but newlines are printable. -/
theorem newline_or_le (h : Lines count s) :
    ∀ byte ∈ Utf8.bytes s, byte = newline ∨ 0x20 ≤ byte := by
  induction h with
  | nil => nofun
  | cons hline _ ih =>
    rw [bytes_append_newline, List.forall_mem_append, List.forall_mem_cons]
    exact ⟨fun byte hmem => .inr (hline.le_of_mem_bytes byte hmem), .inl rfl, ih⟩

/-- The last line ends with the text. -/
theorem getLast?_bytes (h : Lines count s) (hcount : count ≠ 0) :
    (Utf8.bytes s).getLast? = some newline := by
  induction h with
  | nil => contradiction
  | @cons count line rest _ hrest ih =>
    rw [bytes_append_newline, List.getLast?_append, List.getLast?_cons]
    -- the newline of this line is the last byte if no line is behind it
    cases hrest with
    | nil => rfl
    | cons _ _ =>
      rw [ih (Nat.succ_ne_zero _)]
      rfl

end Lines

/-! ## The text for people -/

namespace Store

variable {store : Store} {h : Handle} {stored : StoredObject}

/-- Names have a line each. -/
theorem lines_nameLines {names : Option (String × String)}
    (hnames : ∀ found, names = some found →
      isIdentifier found.1 = true ∧ isIdentifier found.2 = true) :
    Lines (if names.isSome then 2 else 0) (nameLines names) := by
  cases names with
  | none => exact .nil
  | some found =>
    obtain ⟨interface, operation⟩ := found
    obtain ⟨hinterface, hoperation⟩ := hnames _ rfl
    have hfirst : Printable ("  iface: " ++ interface) :=
      .append (by decide) (printable_of_isIdentifier hinterface)
    have hsecond : Printable ("  oper: " ++ operation) :=
      .append (by decide) (printable_of_isIdentifier hoperation)
    have htext : nameLines (some (interface, operation)) =
        "  iface: " ++ interface ++ "\n" ++ ("  oper: " ++ operation ++ "\n") := by
      rw [nameLines, show "\n  oper: " = "\n" ++ "  oper: " from rfl]
      simp only [String.append_assoc]
    rw [htext]
    exact (Lines.single hfirst).append (.single hsecond)

/-- Every argument has a line. -/
theorem lines_argLines (args : List Bytes) : Lines args.length (argLines args) := by
  let line (entry : Bytes × Nat) : String :=
    "    [" ++ toString entry.2 ++ "] b'" ++ Quoted.bytes entry.1 ++ "'"
  have hline (entry : Bytes × Nat) : Printable (line entry) := by
    have hindex : Printable ("    [" ++ toString entry.2) :=
      .append (by decide) (printable_toString _)
    exact ((hindex.append (by decide)).append (Quoted.printable_bytes _)).append (by decide)
  have htext : argLines args = String.join (args.zipIdx.map fun entry => line entry ++ "\n") := by
    rw [argLines, show "'\n" = "'" ++ "\n" from rfl]
    simp only [line, String.append_assoc]
  have hlines := Lines.join hline args.zipIdx
  rwa [List.length_zipIdx, ← htext] at hlines

/-- **The text for people** has a line for each argument, and three or five more. -/
theorem lines_dump (hstored : store.object h = .ok stored) (hs : stored.Readable) :
    ∃ text, store.dump h = .ok text ∧
      Lines ((if stored.kind = .command then 5 else 3) + stored.args.length) text := by
  obtain ⟨m, hm⟩ := hs.decodes
  have hhead : Printable (stored.kind.name ++ " handle " ++ h.text) := by
    refine .append (.append ?_ (by decide)) h.printable_text
    cases stored.kind <;> decide
  have hmetadata : Printable ("  metadata: " ++ m.toText) :=
    .append (by decide) (Entries.printable_toText (Entries.proper_of_decode hm))
  have hcount : Printable ("  args: " ++ toString stored.args.length) :=
    .append (by decide) (printable_toString _)
  have hlines := (Lines.single hhead).append ((lines_nameLines hs.names).append
    ((Lines.single hmetadata).append ((Lines.single hcount).append (lines_argLines stored.args))))
  simp only [dump, hstored, hm]
  refine ⟨_, rfl, ?_⟩
  -- the parts are put together in another way than their lines, but to the same text
  convert hlines using 1
  · have hkind : stored.kind = if stored.names.isSome then .command else .data := rfl
    rw [hkind]
    cases stored.names.isSome with
    | true =>
      simp only [if_true]
      omega
    | false =>
      simp only [Bool.false_eq_true, reduceCtorEq, if_false]
      omega
  · simp only [String.append_assoc]

end Store

/-! ## Terminated texts in memory -/

/-- **What a reader of terminated text sees** in memory: what stands in front of the first
terminator. -/
def Memory.terminated? : Memory → Option Bytes
  | .null _ => none
  | .bytes contents =>
    if terminator ∈ contents then some (contents.takeWhile (· ≠ terminator)) else none

theorem Memory.Filled.terminated?_eq {item : Bytes} {memory filled : Memory}
    (hfilled : memory.Filled (item ++ [terminator]) filled) (hitem : terminator ∉ item) :
    filled.terminated? = some item := by
  cases hfilled with
  | null hnothing => simp at hnothing
  | bytes hlength behind =>
    rw [List.append_assoc, List.singleton_append, terminated?, if_pos (by simp),
      takeWhile_terminated hitem]

namespace Getter

variable {getter : Getter} {h : Handle} {shared : Shared} {item : Bytes}

/-- **An item that reaches every caller whole.** -/
structure Reaches (getter : Getter) (h : Handle) (shared : Shared) (item : Bytes) : Prop where
  /-- It is the item of the handle. -/
  item_eq : getter.item h shared.store = .ok item
  /-- Whoever reads what was delivered up to the first terminator sees the whole item, and as many
  bytes as were reported. -/
  seen : ∀ target, ∃ made, (getter.call h target).run shared = (.delivery made, shared) ∧
    (made.status = .ok → made.length = some item.length ∧ made.memory.terminated? = some item)
  /-- In a store that is not poisoned it is delivered if there is room for a terminator behind
  it. -/
  delivered : shared.poisoned = false → ∀ memory : Memory,
    ((getter.call h ⟨memory, true⟩).run shared).1.status = .ok ↔
      memory.isUnusable = false ∧ item.length < memory.length

/-- **Texts without a terminator reach their callers whole.** -/
theorem reaches_of_not_mem (hitem : getter.item h shared.store = .ok item)
    (hending : getter.ending = [terminator]) (hterminator : terminator ∉ item) :
    getter.Reaches h shared item where
  item_eq := hitem
  seen target := by
    obtain ⟨made, hrun, hmade⟩ := getter.outcome_run shared h target
    refine ⟨made, hrun, fun hok => ?_⟩
    obtain ⟨found, hfound, hlength, hfilled⟩ := hmade.obeys.filled hok
    obtain rfl : item = found := Except.ok.inj (hitem.symm.trans hfound)
    rw [hending] at hfilled
    exact ⟨hlength, hfilled.terminated?_eq hterminator⟩
  delivered hpoisoned memory := by
    have hstatus := status_run_eq_ok_iff hpoisoned hitem memory
    rwa [hending] at hstatus

/-- **A printable text reaches its callers whole.** -/
theorem reaches_of_printable {text : String}
    (hitem : getter.item h shared.store = ofText (.ok text))
    (hending : getter.ending = [terminator]) (htext : Printable text) :
    ∃ item, getter.Reaches h shared item ∧ ∀ byte ∈ item, 0x20 ≤ byte := by
  have hterminator : terminator ∉ Utf8.bytes text := htext.not_mem_bytes (by decide)
  exact ⟨_, reaches_of_not_mem hitem hending hterminator, htext.le_of_mem_bytes⟩

end Getter

/-- **Texts are never cut, and nothing is forged in them.** In every shared store that callers lead
to, the texts of a live handle are there and reach every caller whole: the text of its metadata, its
names if it is a command, and the text for people. No byte of them is a control, except that the
text for people has newlines: one for each argument and three more, or five for a command, the last
of them at its end. -/
theorem text_outputs_are_never_cut {shared : Shared} (hs : shared.Reached) {h : Handle}
    {stored : StoredObject} (hstored : shared.store.object h = .ok stored) :
    (∃ item, Getter.text.Reaches h shared item ∧ ∀ byte ∈ item, 0x20 ≤ byte) ∧
      (stored.kind = .command → ∀ getter : Getter, getter = .interface ∨ getter = .operation →
        ∃ item, getter.Reaches h shared item ∧ ∀ byte ∈ item, 0x20 ≤ byte) ∧
      ∃ item, Getter.dump.Reaches h shared item ∧
        (∀ byte ∈ item, byte = newline ∨ 0x20 ≤ byte) ∧
        item.count newline = (if stored.kind = .command then 5 else 3) + stored.args.length ∧
        item.getLast? = some newline := by
  obtain ⟨allotted, hsound⟩ := hs.sound
  have hreadable := hsound.readable h stored (Store.object_eq_ok_iff.1 hstored)
  refine ⟨?_, ?_, ?_⟩
  · obtain ⟨m, hm⟩ := hreadable.decodes
    have hitem : Getter.text.item h shared.store = Getter.ofText (.ok m.toText) := by
      rw [Getter.item, Call.metadataText, hstored]
      dsimp only
      rw [hm]
      rfl
    exact Getter.reaches_of_printable hitem rfl
      (Entries.printable_toText (Entries.proper_of_decode hm))
  · intro hcommand
    -- a command has names, and they were checked before they were stored
    obtain ⟨⟨interface, operation⟩, hnames⟩ : ∃ names, stored.names = some names := by
      rw [← Option.ne_none_iff_exists']
      simpa [StoredObject.kind] using hcommand
    obtain ⟨hinterface, hoperation⟩ := hreadable.names _ hnames
    have hfound : shared.store.names h = .ok (interface, operation) := by
      rw [Store.names, hstored]
      dsimp only
      rw [hnames]
    rintro getter (rfl | rfl)
    · refine Getter.reaches_of_printable ?_ rfl (printable_of_isIdentifier hinterface)
      rw [Getter.item, hfound]
      rfl
    · refine Getter.reaches_of_printable ?_ rfl (printable_of_isIdentifier hoperation)
      rw [Getter.item, hfound]
      rfl
  · obtain ⟨text, hdump, hlines⟩ := Store.lines_dump hstored hreadable
    -- lines are printable up to their ends, so none of them holds a terminator
    have hterminator : terminator ∉ Utf8.bytes text := by
      intro hmem
      rcases hlines.newline_or_le _ hmem with heq | hle <;> contradiction
    have hitem : Getter.dump.item h shared.store = .ok (Utf8.bytes text) := by
      rw [Getter.item, hdump]
      rfl
    refine ⟨_, Getter.reaches_of_not_mem hitem rfl hterminator, hlines.newline_or_le,
      hlines.count_newline, hlines.getLast?_bytes ?_⟩
    split <;> omega

/-- A command whose metadata and whose argument consist of a newline and a zero byte. -/
theorem text_outputs_are_never_cut_controls :
    let creation : Call := .newCommand (some (Utf8.bytes "lamp")) (some (Utf8.bytes "switch")) true
    let metadata : Call := .setEncoded 1 (.bytes [0xa1, 0x61, 0x0a, 0x61, 0x00])
    let argument : Call := .push 1 (.bytes [0x0a, 0x00])
    let shared := (argument.run (metadata.run (creation.run (.ofStore .empty)).2).2).2
    shared.store.object 1 =
        .ok ⟨[0xa1, 0x61, 0x0a, 0x61, 0x00], [[0x0a, 0x00]], some ("lamp", "switch")⟩ ∧
      (∃ item, Getter.text.Reaches 1 shared item ∧ ∀ byte ∈ item, 0x20 ≤ byte) ∧
      ∃ item, Getter.dump.Reaches 1 shared item ∧ item.count newline = 6 := by
  intro creation metadata argument shared
  have hs : shared.Reached :=
    .call (.call (.call Shared.reached_empty creation) metadata) argument
  have hstored : shared.store.object 1 =
      .ok ⟨[0xa1, 0x61, 0x0a, 0x61, 0x00], [[0x0a, 0x00]], some ("lamp", "switch")⟩ :=
    Store.object_eq_ok_iff.2 (by decide +kernel)
  obtain ⟨htext, -, item, hdump, -, hcount, -⟩ := text_outputs_are_never_cut hs hstored
  exact ⟨hstored, htext, item, hdump, hcount⟩

end Parcel
