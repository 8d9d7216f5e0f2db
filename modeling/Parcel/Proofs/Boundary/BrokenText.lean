import Parcel.Proofs.Boundary.Failure
import Parcel.Proofs.Metadata.TextFaults
import Parcel.Proofs.Metadata.TextRoundTrip
import Parcel.Proofs.Text.Lossy

/-!
# Metadata from bytes that are no text

Metadata that comes in as JSON from outside is read lossily: what is no text is replaced, and then
the text with its replacements is parsed. Outside of quotes the replacement character is no JSON, so
that bytes which are broken there are refused as malformed. In quotes it is a character like any
other beyond ASCII, and there nothing else tells that something was replaced: the bytes are
accepted, and what is stored is the metadata of another text, with the replacement character in a
key or a value.

## Main definitions

* `Entries.ReadFrom`: a mapping that is read from a text, with the places of its characters

## Main results

* `Entries.readFrom_of_ofText`: every mapping that is read
* `Call.run_setText_eq_ok`: what is stored for a text
* `broken_text_is_stored_where_quoted`: bytes that are no text, in every shared store
* `broken_text_is_accepted`: bytes that are no text, under a live handle
-/

namespace Parcel

open Json

variable {text : String} {m : Entries} {shared : Shared} {h : Handle} {t : Bytes}

/-! ## Mappings that are read -/

/-- **A mapping is read from a text** that spells it. Characters beyond ASCII stand for themselves
in the quoted texts of the spelling, and if no key occurs twice in an object there, all of them are
found in the mapping. -/
inductive Entries.ReadFrom (text : String) (m : Entries) : Prop
  | spelled (padding : Padding) (s : Spelling) (htext : text.toList = padding.around s.chars)
      (hvalue : s.value? = some (.object m))
      (hquoted : text.toList.filter (fun c => 0x80 ≤ c.toNat) =
        s.plain.filter fun c => 0x80 ≤ c.toNat)
      (hheld : s.KeysDiffer → ∀ c ∈ text.toList, 0x80 ≤ c.toNat → (Json.object m).Holds c)

theorem Entries.parse?_of_ofText (h : ofText text = .ok m) : parse? text = some (.object m) := by
  rw [ofText] at h
  split at h
  · contradiction
  · next entries hparse =>
    split at h
    · contradiction
    · cases h
      exact hparse
  · contradiction

/-- **Every mapping that is read** is read from a spelling. -/
theorem Entries.readFrom_of_ofText (h : ofText text = .ok m) : ReadFrom text m := by
  have hparse := parse?_of_ofText h
  obtain ⟨padding, s, htext⟩ := isValid_of_parse? hparse
  have hvalue : s.value? = some (.object m) := by
    rw [parse?_spelled htext] at hparse
    split at hparse
    · exact hparse
    · contradiction
  have hquoted := filter_beyond htext
  refine .spelled padding s htext hvalue hquoted fun hdiffer c hc hbeyond => ?_
  -- the character is among those that stand for themselves
  have hmem : c ∈ s.plain.filter fun c => 0x80 ≤ c.toNat := by
    rw [← hquoted]
    simp [hc, hbeyond]
  exact Spelling.holds_of_mem_plain hdiffer hvalue (List.mem_of_mem_filter hmem)

/-! ## What is stored for a text -/

/-- Metadata is stored under live handles only. -/
theorem Store.setMetadata_eq_ok {s s' : Store} {blob : Bytes}
    (hset : s.setMetadata h blob = .ok s') :
    ∃ stored, s.object h = .ok stored ∧ s' = s.withObject h { stored with metadata := blob } := by
  rw [setMetadata] at hset
  split at hset
  · contradiction
  · next stored hstored =>
    split at hset
    · contradiction
    · cases hset
      exact ⟨stored, hstored, rfl⟩

namespace Call

variable {input : Option Bytes}

theorem run_setText_of_ofText (hinput : readText? input = some text)
    (hread : Entries.ofText text = .ok m) (shared : Shared) (h : Handle) :
    (Call.setText h input).run shared =
      shared.command (ask (.setMetadata h (Entries.encode m))) := by
  rw [run, hinput]
  dsimp only
  rw [encodeText_of_ofText hread]

/-- **A text that is accepted** is one that a mapping is read from. The store is not poisoned then,
the handle is live, and the mapping takes the place of its metadata. -/
theorem run_setText_eq_ok (hinput : readText? input = some text)
    (hok : ((Call.setText h input).run shared).1.status = .ok) :
    ∃ stored m, shared.poisoned = false ∧ shared.store.object h = .ok stored ∧
      Entries.ofText text = .ok m ∧
      (Call.setText h input).run shared = (.plain .ok, .ofStore (shared.store.withObject h
        { stored with metadata := Entries.encode m })) := by
  -- a text is read before the store is needed, so one that is refused fails in every store
  cases hread : Entries.ofText text with
  | error error =>
    obtain ⟨status, hcode, hrun⟩ := (Entries.refused_of_ofText hread).setText shared h input hinput
    obtain rfl := Status.code_injective hcode
    rw [hrun] at hok
    exact absurd hok (Status.ofError_ne_ok error)
  | ok m =>
    cases hpoisoned : shared.poisoned with
    | true =>
      rw [run_setText_of_ofText hinput hread, Shared.command,
        Shared.request_poisoned hpoisoned] at hok
      contradiction
    | false =>
      -- otherwise the answer is the one of the store to the request
      have hcommand : (Call.setText h input).run (.ofStore shared.store) =
          (.plain (.ofResult (shared.store.changed
              (shared.store.setMetadata h (Entries.encode m))).1),
            .ofStore (shared.store.changed
              (shared.store.setMetadata h (Entries.encode m))).2) := by
        rw [run_setText_of_ofText hinput hread, Shared.command_ofStore, outcome_ask_store,
          Store.perform_setMetadata]
      rw [← Shared.eq_ofStore hpoisoned] at hcommand
      rw [hcommand] at hok ⊢
      cases hset : shared.store.setMetadata h (Entries.encode m) with
      | error error =>
        rw [hset] at hok
        exact absurd hok (Status.ofError_ne_ok error)
      | ok s' =>
        obtain ⟨stored, hstored, rfl⟩ := Store.setMetadata_eq_ok hset
        exact ⟨stored, m, rfl, hstored, rfl, rfl⟩

end Call

/-! ## Bytes that are no text -/

/-- The text of an object with the replacement character as a key. -/
def replaced : Spelling :=
  .object 0 (fun _ => Padding.none) (fun _ => Padding.none)
    (fun _ => [.plain '\ufffd' (by decide) (by decide) (by decide)]) (fun _ => .null)

theorem ofText_of_replaced (htext : text.toList = replaced.chars) :
    Entries.ofText text = .ok [("\ufffd", .null)] := by
  have hdepth : replaced.depth ≤ parserLevels := by simp [replaced, Spelling.depth, parserLevels]
  have hvalue : replaced.value? = some (.object [("\ufffd", .null)]) := by
    simp [replaced, Spelling.value?, List.finRange_succ, Piece.text?, Piece.characters?]
    rfl
  have hcheck : Entries.check [("\ufffd", .null)] = .ok () := by decide
  have hspelled : text.toList = Padding.none.around replaced.chars := by
    rw [Padding.around_none, htext]
  rw [Entries.ofText, parse?_spelled hspelled, if_pos hdepth, hvalue]
  dsimp only
  rw [hcheck]

/-- **Bytes that are no text are stored where they are broken in quotes.** For every string of bytes
without a terminator, whatever lies behind it, in every shared store and under every handle: a text
is read as it was written, but of bytes that are no text something is replaced. If the call fails,
nothing changes. It fails, as for malformed metadata, if the text with its replacements is no valid
JSON, and so it does for bytes that are no text and hold no quote. If the call succeeds, the handle
is live in a store that is not poisoned, and what takes the place of the metadata is the mapping
that the text with its replacements spells. All characters beyond ASCII, the replacement character
among them, stand for themselves in keys and texts there. And under live handles the call succeeds
whenever a mapping is read. Lengths fit 64 bits, as in memory. -/
theorem broken_text_is_stored_where_quoted (ht : terminator ∉ t) (behind : Bytes) (shared : Shared)
    (h : Handle) :
    let text := Utf8.lossy t
    let call := Call.setText h (some (t ++ terminator :: behind))
    (∀ written, Utf8.text? t = some written → text = written) ∧
    (Utf8.text? t = none → Utf8.bytes text ≠ t ∧ Utf8.replacement ∈ text.toList) ∧
    ((call.run shared).1.status ≠ .ok → (call.run shared).2 = shared) ∧
    (¬ IsValid text → call.run shared = (.plain .malformedEncoding, shared)) ∧
    (Utf8.text? t = none → 0x22 ∉ t → call.run shared = (.plain .malformedEncoding, shared)) ∧
    ((call.run shared).1.status = .ok → ∃ stored m, shared.poisoned = false ∧
      shared.store.object h = .ok stored ∧ Entries.ofText text = .ok m ∧
      Entries.ReadFrom text m ∧ call.run shared = (.plain .ok, .ofStore
        (shared.store.withObject h { stored with metadata := Entries.encode m }))) ∧
    (∀ stored m, shared.poisoned = false → shared.store.object h = .ok stored →
      Entries.ofText text = .ok m → Addressable (.object m) →
      (call.run shared).1.status = .ok) := by
  intro text call
  have hinput := readText?_terminated ht behind
  have hmalformed (hinvalid : ¬ IsValid text) :
      call.run shared = (.plain .malformedEncoding, shared) := by
    have hparse : parse? text = none := by
      cases hparse : parse? text with
      | none => rfl
      | some v => exact absurd (isValid_of_parse? hparse) hinvalid
    obtain ⟨status, hcode, hrun⟩ :=
      (Entries.refused_of_parse?_eq_none hparse).setText shared h _ hinput
    obtain rfl : status = .malformedEncoding := Status.code_injective hcode
    exact hrun
  refine ⟨fun written hwritten => ?_, fun hnone => ?_, (call.access_run shared).eq_of_failed,
    hmalformed, fun hnone hquote => hmalformed ?_, fun hok => ?_,
    fun stored m hlive hstored hread haddressable => ?_⟩
  · rw [← Utf8.lossy_bytes written, Utf8.bytes_of_text?_eq_some hwritten]
  · exact ⟨Utf8.text?_eq_none_iff.1 hnone, Utf8.replacement_mem_lossy hnone⟩
  · -- the replacement character is beyond ASCII, and a quote would stand in the bytes
    refine not_isValid_of_unquoted (fun hmem => hquote ?_) (Utf8.replacement_mem_lossy hnone)
      (by decide)
    exact (Utf8.reads_lossy t).mem_of_mem hmem (by decide) 0x22 (by decide)
  · obtain ⟨stored, m, hlive, hstored, hread, hrun⟩ := Call.run_setText_eq_ok hinput hok
    exact ⟨stored, m, hlive, hstored, hread, Entries.readFrom_of_ofText hread, hrun⟩
  · rw [Call.run_setText_of_live hinput hread haddressable hlive hstored]
    rfl

/-- A byte that is broken in front of an object, and one that is broken in a key, under a live
handle: the first is refused, and for the second another text is stored. -/
theorem broken_text_is_stored_where_quoted_some :
    let shared := ((Call.newData true).run (.ofStore .empty)).2
    let outside : Bytes := [0xff, 0x7b, 0x7d]
    let inside : Bytes := [0x7b, 0x22, 0xff, 0x22, 0x3a, 0x6e, 0x75, 0x6c, 0x6c, 0x7d]
    terminator ∉ outside ∧ terminator ∉ inside ∧
      (Call.setText 1 (some (outside ++ [terminator]))).run shared =
        (.plain .malformedEncoding, shared) ∧
      ((Call.setText 1 (some (inside ++ [terminator]))).run shared).1.status = .ok ∧
      Utf8.bytes (Utf8.lossy inside) ≠ inside := by
  intro shared outside inside
  have houtside : terminator ∉ outside := by decide
  have hinside : terminator ∉ inside := by decide
  have hstored : shared.store.object 1 = .ok (.empty none) := by decide +kernel
  have htext : (Utf8.lossy inside).toList = replaced.chars := by decide +kernel
  have haddressable : Addressable (.object [("\ufffd", .null)]) := by decide
  obtain ⟨-, -, -, -, hrefused, -, -⟩ := broken_text_is_stored_where_quoted houtside [] shared 1
  obtain ⟨-, hbroken, -, -, -, -, hlive⟩ := broken_text_is_stored_where_quoted hinside [] shared 1
  exact ⟨houtside, hinside, hrefused (by decide) (by decide),
    hlive _ _ rfl hstored (ofText_of_replaced htext) haddressable, (hbroken (by decide)).1⟩

/-- **Bytes that are no text are accepted**: the metadata of a live object becomes that of another
text, which has the replacement character where the byte `ff` was. -/
theorem broken_text_is_accepted :
    let shared := ((Call.newData true).run (.ofStore .empty)).2
    let t : Bytes := [0x7b, 0x22, 0x6b, 0x22, 0x3a, 0x22, 0xff, 0x22, 0x7d]
    let stored : StoredObject := ⟨[0xa1, 0x61, 0x6b, 0x63, 0xef, 0xbf, 0xbd], [], none⟩
    shared.Reached ∧ shared.store.object 1 = .ok (.empty none) ∧ terminator ∉ t ∧
      Utf8.text? t = none ∧
      (Call.setText 1 (some (t ++ [terminator]))).run shared =
        (.plain .ok, .ofStore (shared.store.withObject 1 stored)) ∧
      stored ≠ .empty none := by
  intro shared t stored
  have hstored : shared.store.object 1 = .ok (.empty none) := by decide +kernel
  have hinput : readText? (some (t ++ [terminator])) =
      some "\x7b\"k\":\"\ufffd\"\x7d" := by decide +kernel
  have hblob : Call.encodeText "\x7b\"k\":\"\ufffd\"\x7d" = .ok stored.metadata := by
    decide +kernel
  have hdecodes : (Entries.decode stored.metadata).toOption.isSome = true := by decide +kernel
  refine ⟨.call Shared.reached_empty (.newData true), hstored, by decide, by decide, ?_,
    by decide⟩
  cases hdecode : Entries.decode stored.metadata with
  | error error =>
    rw [hdecode] at hdecodes
    contradiction
  | ok m =>
    have hrun := Call.run_setText hstored hinput hblob
    rw [StoredObject.replaceMetadata_of_decode hdecode] at hrun
    exact hrun

end Parcel
