import Parcel.Proofs.Boundary.Interchange
import Parcel.Proofs.Json.Plain
import Parcel.Proofs.Json.Recognised

/-!
# Refused texts

A text that no mapping can be read from is refused in one of two ways. If the parser can make
nothing of it, it is malformed. If it holds a value, but not an object or one that nests deeper than
the limit, the value is invalid as metadata. From outside the two have different codes, and neither
changes anything.

The parser has a limit of its own. So a text that nests deeper than this limit is malformed,
although it is valid, and whatever it holds. Up to the limit of the parser every valid text is told
from the others, as long as its numbers are in the range and its escapes are paired.

## Main definitions

* `Entries.Refused`: a text is refused, from inside and from outside
* `Json.Spelling.objectOver`: the text of an object over nested arrays

## Main results

* `Entries.text_is_classified`: which texts are refused, and how
* `Entries.deep_text_is_malformed`: a valid text beyond the limit of the parser
-/

namespace Parcel

open Json

/-! ## Nested texts -/

namespace Json

/-- No blanks around a part. -/
def Padding.none : Padding where
  before := ⟨[], nofun⟩
  after := ⟨[], nofun⟩

@[simp] theorem Padding.around_none (part : List Char) : Padding.none.around part = part := by
  simp [Padding.none, Padding.around]

namespace Spelling

/-- **Arrays inside each other**, one more than the number given. -/
def nest : Nat → Spelling
  | 0 => .emptyArray Padding.none.before
  | n + 1 => .array 0 (fun _ => Padding.none) (fun _ => nest n)

/-- **An object over nested arrays**, under the key `k`. -/
def objectOver (n : Nat) : Spelling :=
  .object 0 (fun _ => Padding.none) (fun _ => Padding.none)
    (fun _ => [.plain 'k' (by decide) (by decide) (by decide)]) (fun _ => nest n)

theorem separated_one (part : Fin 1 → List Char) : separated part = part 0 := by
  simp [separated]

theorem chars_nest (n : Nat) :
    (nest n).chars = List.replicate (n + 1) '[' ++ List.replicate (n + 1) ']' := by
  induction n with
  | zero => rfl
  | succ n ih =>
    rw [nest, chars, separated_one, Padding.around_none, ih, List.append_assoc,
      ← List.replicate_succ', List.replicate_succ (n := n + 1)]
    rfl

theorem chars_objectOver (n : Nat) : (objectOver n).chars =
    ['\x7b', '"', 'k', '"', ':'] ++ List.replicate (n + 1) '[' ++ List.replicate (n + 1) ']' ++
      ['\x7d'] := by
  rw [objectOver, chars, separated_one, Padding.around_none, Padding.around_none, chars_nest]
  simp [quotedPieces, Piece.chars]

theorem depth_nest (n : Nat) : (nest n).depth = n + 1 := by
  induction n with
  | zero => rfl
  | succ n ih => simp [nest, depth, ih]

theorem depth_objectOver (n : Nat) : (objectOver n).depth = n + 2 := by
  simp [objectOver, depth, depth_nest]

theorem ordinary_nest (n : Nat) : (nest n).Ordinary := by
  induction n with
  | zero => exact trivial
  | succ n ih => exact fun _ => ih

theorem ordinary_objectOver (n : Nat) : (objectOver n).Ordinary :=
  ⟨fun _ => .cons (fun h => h) .nil, fun _ => ordinary_nest n⟩

theorem keysDiffer_nest (n : Nat) : (nest n).KeysDiffer := by
  induction n with
  | zero => exact trivial
  | succ n ih => exact fun _ => ih

theorem keysDiffer_objectOver (n : Nat) : (objectOver n).KeysDiffer :=
  ⟨fun i j _ => Fin.subsingleton_one.elim i j, fun _ => keysDiffer_nest n⟩

/-- The value is an object that nests as deep as its text. -/
theorem exists_value?_objectOver (n : Nat) :
    ∃ m, (objectOver n).value? = some (.object m) ∧ (Json.object m).depth = n + 2 := by
  obtain ⟨v, hv⟩ := exists_value?_eq (ordinary_objectOver n)
  obtain ⟨m, rfl, -⟩ := exists_of_value?_object hv
  exact ⟨m, hv, (depth_eq (keysDiffer_objectOver n) hv).trans (depth_objectOver n)⟩

end Spelling

end Json

/-! ## Refusals -/

namespace Entries

variable {text : String} {m : Entries} {error : Error}

/-- **A text is refused** with an error, and with a code from outside: whatever memory it comes from
and under every handle, where nothing changes. -/
structure Refused (text : String) (error : Error) (code : Int) : Prop where
  ofText : Entries.ofText text = .error error
  setText : ∀ (shared : Shared) (h : Handle) (input : Option Bytes), readText? input = some text →
    ∃ status : Status, status.code = code ∧
      (Call.setText h input).run shared = (.plain status, shared)

/-- What is refused inside is refused from outside, before the store is asked. -/
theorem refused_of_ofText (h : ofText text = .error error) :
    Refused text error (Status.ofError error).code where
  ofText := h
  setText shared handle input hinput := by
    have hencode : Call.encodeText text = .error error := by
      rw [Call.encodeText, h]
      rfl
    refine ⟨.ofError error, rfl, ?_⟩
    rw [Call.run, hinput]
    dsimp only
    rw [hencode]

theorem refused_of_parse?_eq_none (h : parse? text = none) :
    Refused text (.malformedEncoding "invalid JSON") (-9) := by
  have herror : ofText text = .error (.malformedEncoding "invalid JSON") := by
    rw [ofText, h]
  exact refused_of_ofText herror

/-- What the check refuses is invalid as metadata. -/
theorem exists_of_check_eq_error (h : check m = .error error) :
    ∃ value reason, error = .invalidMetadata value reason := by
  induction m with
  | nil => contradiction
  | cons entry rest ih =>
    obtain ⟨key, value⟩ := entry
    rw [check, checkEntry] at h
    split at h
    · next hentry =>
      split at hentry
      · cases hentry
        cases h
        exact ⟨_, _, rfl⟩
      · contradiction
    · exact ih h

/-- **What is parsed is refused** if it is no object, or one that nests too deep. -/
theorem refused_of_parse?_eq_some {v : Json} (h : parse? text = some v)
    (hdeep : ∀ m, v = .object m → maxDepth < v.depth) :
    ∃ value reason, Refused text (.invalidMetadata value reason) (-6) := by
  suffices herror : ∃ value reason, ofText text = .error (.invalidMetadata value reason) by
    obtain ⟨value, reason, herror⟩ := herror
    exact ⟨value, reason, refused_of_ofText herror⟩
  rw [Entries.ofText, h]
  cases v with
  | object m =>
    dsimp only
    cases hcheck : check m with
    | ok => exact absurd (check_eq_ok_iff.1 hcheck) (Nat.not_le.2 (hdeep m rfl))
    | error error =>
      obtain ⟨value, reason, rfl⟩ := exists_of_check_eq_error hcheck
      exact ⟨value, reason, rfl⟩
  | _ => exact ⟨_, _, rfl⟩

/-! ## Classification -/

/-- **Refused texts are classified.** A text that is not valid JSON is malformed. So is a valid one
with more containers inside each other than the parser allows, whatever they hold. Every other valid
text, if its numbers are below the greatest double but two and the halves of pairs among its escapes
come in pairs, stands for a value, which nests no deeper than the text, and as deep if no key occurs
twice in an object. If this is an object within the nesting limit, it is read. If it is any other
value, or an object that nests deeper, it is invalid as metadata. From outside the codes are -9 and
-6, whichever memory the text comes from, and a valid text can be given as terminated bytes.

Numbers from the greatest double but two on are set aside with those outside the range of doubles,
because the parser does not tell the two apart: it reports that a number is out of range as soon as
its own rounded steps lead out of it, and for some numbers below the greatest double they do, as the
example after `Numeral.exists_value?_eq` shows. -/
theorem text_is_classified (text : String) :
    (¬IsValid text → Refused text (.malformedEncoding "invalid JSON") (-9)) ∧
    ∀ (padding : Padding) (s : Spelling), text.toList = padding.around s.chars →
      (∀ behind, readText? (some (Utf8.bytes text ++ terminator :: behind)) = some text) ∧
      (parserLevels < s.depth → Refused text (.malformedEncoding "invalid JSON") (-9)) ∧
      (s.depth ≤ parserLevels → s.Ordinary → ∃ v, s.value? = some v ∧
        v.depth ≤ s.depth ∧ (s.KeysDiffer → v.depth = s.depth) ∧
        (∀ m, v = .object m → v.depth ≤ maxDepth → ofText text = .ok m) ∧
        ((∀ m, v = .object m → maxDepth < v.depth) →
          ∃ value reason, Refused text (.invalidMetadata value reason) (-6))) := by
  refine ⟨fun hinvalid => ?_, fun padding s htext => ⟨fun behind => ?_, fun hdeep => ?_, ?_⟩⟩
  · refine refused_of_parse?_eq_none ?_
    cases hparse : parse? text with
    | none => rfl
    | some v => exact absurd (isValid_of_parse? hparse) hinvalid
  · refine readText?_bytes ?_ behind
    rw [htext]
    exact padding.nonzero_around s.nonzero
  · refine refused_of_parse?_eq_none ?_
    rw [parse?_spelled htext, if_neg (Nat.not_le.2 hdeep)]
  · intro hlevels hordinary
    obtain ⟨v, hv⟩ := Spelling.exists_value?_eq hordinary
    have hparse : parse? text = some v := by
      rw [parse?_spelled htext, if_pos hlevels, hv]
    refine ⟨v, hv, Spelling.depth_le hv, fun hdiffer => Spelling.depth_eq hdiffer hv, ?_,
      refused_of_parse?_eq_some hparse⟩
    rintro m rfl hdepth
    rw [ofText, hparse]
    dsimp only
    rw [check_eq_ok_iff.2 hdepth]

/-- Objects over 63, 64 and 126 arrays: both sides of the nesting limit, and the greatest depth
within the limit of the parser. -/
theorem text_is_classified_near_limits :
    let within := Spelling.objectOver 62
    let beyond := Spelling.objectOver 63
    let last := Spelling.objectOver 125
    (∃ m, ofText (String.ofList within.chars) = .ok m) ∧
      (∃ value reason, Refused (String.ofList beyond.chars) (.invalidMetadata value reason) (-6)) ∧
      ∃ value reason, Refused (String.ofList last.chars) (.invalidMetadata value reason) (-6) := by
  intro within beyond last
  -- for every depth at once, so that no value at a limit has to be computed
  have hclassified : ∀ n, n + 2 ≤ parserLevels → ∃ m, (Json.object m).depth = n + 2 ∧
      ((Json.object m).depth ≤ maxDepth →
        ofText (String.ofList (Spelling.objectOver n).chars) = .ok m) ∧
      (maxDepth < (Json.object m).depth → ∃ value reason, Refused
        (String.ofList (Spelling.objectOver n).chars) (.invalidMetadata value reason) (-6)) := by
    intro n hn
    obtain ⟨v, hv, -, -, hread, hrefused⟩ := ((text_is_classified _).2 Padding.none
      (Spelling.objectOver n) (by rw [String.toList_ofList, Padding.around_none])).2.2
      (by rw [Spelling.depth_objectOver]; exact hn) (Spelling.ordinary_objectOver n)
    obtain ⟨m, hm, hdepth⟩ := Spelling.exists_value?_objectOver n
    obtain rfl := Option.some.inj (hv.symm.trans hm)
    exact ⟨m, hdepth, hread m rfl, fun hdeep => hrefused fun _ _ => hdeep⟩
  obtain ⟨m, hm, hread, -⟩ := hclassified 62 (by decide)
  obtain ⟨m', hm', -, hbeyond⟩ := hclassified 63 (by decide)
  obtain ⟨m'', hm'', -, hlast⟩ := hclassified 125 (by decide)
  exact ⟨⟨m, hread (by rw [hm]; decide)⟩, hbeyond (by rw [hm']; decide),
    hlast (by rw [hm'']; decide)⟩

/-- **A valid text beyond the limit of the parser**: an object over 127 arrays. It stands for an
object that nests deeper than the limit, which is invalid as metadata, but it is refused as
malformed. -/
theorem deep_text_is_malformed :
    let text := String.ofList (['\x7b', '"', 'k', '"', ':'] ++ List.replicate 127 '[' ++
      List.replicate 127 ']' ++ ['\x7d'])
    let s := Spelling.objectOver 126
    text.toList = Padding.none.around s.chars ∧ s.Ordinary ∧
      (∃ m, s.value? = some (.object m) ∧ maxDepth < (Json.object m).depth) ∧
      Refused text (.malformedEncoding "invalid JSON") (-9) ∧
      ¬∃ value reason, ofText text = .error (.invalidMetadata value reason) := by
  intro text s
  have htext : text.toList = Padding.none.around s.chars := by
    rw [Padding.around_none, Spelling.chars_objectOver, String.toList_ofList]
  have hrefused : Refused text (.malformedEncoding "invalid JSON") (-9) := by
    refine refused_of_parse?_eq_none ?_
    rw [parse?_spelled htext, Spelling.depth_objectOver, if_neg (by decide)]
  obtain ⟨m, hm, hdepth⟩ := Spelling.exists_value?_objectOver 126
  refine ⟨htext, Spelling.ordinary_objectOver 126, ⟨m, hm, by rw [hdepth]; decide⟩, hrefused, ?_⟩
  rintro ⟨value, reason, herror⟩
  exact nomatch Except.error.inj (hrefused.ofText.symm.trans herror)

end Entries

end Parcel
