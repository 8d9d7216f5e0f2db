import Parcel.Json.Parser
import Parcel.Json.Printer

/-!
# Texts in quotes

What is written for a character inside quotes is read as that character: an escape by its letter or
its number, every other character as itself. The quote is always escaped, so the first quote that
stands alone is the one behind the text. No character of what is written lies below the space.

## Main results

* `Json.readText?_escaped`: one character
* `Json.readText?_quoted`: a whole text, whatever stands behind it
* `Json.space_le_of_mem_quoted`: no controls are written
-/

namespace Parcel.Json

variable {c : Char} {read rest : List Char}

/-! ## Steps of reading -/

theorem readText?_simple {found : Char} (h : simpleEscape? c = some found) (hc : c ≠ 'u') :
    readText? read ('\\' :: c :: rest) = readText? (found :: read) rest := by
  rw [readText?, h]
  exact fun _ _ _ _ _ heq => absurd heq hc

/-- An escape by a number that is no half of a pair. -/
theorem readText?_numbered {a b : Char} {n : Nat} (h : hexUnit? '0' '0' a b = some n)
    (hn : n < 0x20) :
    readText? read ('\\' :: 'u' :: '0' :: '0' :: a :: b :: rest) =
      readText? (Char.ofNat n :: read) rest := by
  have hleading : ¬ isLeading n = true := by simp [isLeading]; omega
  have htrailing : ¬ isTrailing n = true := by simp [isTrailing]; omega
  rw [readText?, h]
  simp only [if_neg hleading, if_neg htrailing]

theorem readText?_plain (hquote : c ≠ '"') (hbackslash : c ≠ '\\') (hspace : 0x20 ≤ c.toNat) :
    readText? read (c :: rest) = readText? (c :: read) rest := by
  have hplain : ¬ (c.toNat < 0x20 ∨ c = '\\') := by
    rintro (hlt | heq)
    · omega
    · exact hbackslash heq
  rw [readText?, if_neg hplain]
  · exact hquote
  · exact fun _ _ _ _ _ heq => absurd heq hbackslash
  · exact fun _ _ heq => absurd heq hbackslash

/-! ## Characters -/

/-- The digits of a control stand for its number. -/
theorem hexUnit?_control : ∀ n < 0x20,
    hexUnit? '0' '0' (Nat.digitChar (n / 16)) (Nat.digitChar (n % 16)) = some n := by
  decide

theorem readText?_controlEscape (hc : c.toNat < 0x20) :
    readText? read (controlEscape c ++ rest) = readText? (c :: read) rest := by
  have hnumber (n : Nat) (hn : c.toNat = n) : c = Char.ofNat n := by rw [← hn, Char.ofNat_toNat]
  by_cases hbackspace : c.toNat = 8
  · obtain rfl := hnumber 8 hbackspace
    exact readText?_simple rfl (by decide)
  by_cases htab : c = '\t'
  · subst htab
    exact readText?_simple rfl (by decide)
  by_cases hnewline : c = '\n'
  · subst hnewline
    exact readText?_simple rfl (by decide)
  by_cases hfeed : c.toNat = 12
  · obtain rfl := hnumber 12 hfeed
    exact readText?_simple rfl (by decide)
  by_cases hreturn : c = '\r'
  · subst hreturn
    exact readText?_simple rfl (by decide)
  -- every other control is escaped by its number
  have h := @readText?_numbered read rest _ _ _ (hexUnit?_control _ hc) hc
  rw [Char.ofNat_toNat] at h
  simpa [controlEscape, hbackspace, htab, hnewline, hfeed, hreturn] using h

/-- **A character inside quotes** is read as it was written. -/
theorem readText?_escaped (c : Char) (read rest : List Char) :
    readText? read (escaped c ++ rest) = readText? (c :: read) rest := by
  by_cases hquote : c = '"'
  · subst hquote
    exact readText?_simple rfl (by decide)
  by_cases hbackslash : c = '\\'
  · subst hbackslash
    exact readText?_simple rfl (by decide)
  rw [escaped, if_neg hquote, if_neg hbackslash]
  split
  · next hcontrol => exact readText?_controlEscape hcontrol
  · next hspace => exact readText?_plain hquote hbackslash (Nat.le_of_not_lt hspace)

/-! ## Texts -/

theorem readText?_flatMap_escaped (cs read rest : List Char) :
    readText? read (cs.flatMap escaped ++ '"' :: rest) = some (read.reverse ++ cs, rest) := by
  induction cs generalizing read with
  | nil =>
    rw [List.flatMap_nil, List.nil_append, List.append_nil]
    rfl
  | cons c cs ih =>
    rw [List.flatMap_cons, List.append_assoc, readText?_escaped, ih, List.reverse_cons,
      List.append_assoc, List.singleton_append]

/-- **A text in quotes** is read as it was written, behind its opening quote, and up to its closing
quote. -/
theorem readText?_quoted (s : String) (rest : List Char) :
    ∃ cs, quoted s ++ rest = '"' :: cs ∧ readText? [] cs = some (s.toList, rest) :=
  ⟨s.toList.flatMap escaped ++ '"' :: rest, by simp [quoted], readText?_flatMap_escaped _ [] rest⟩

/-! ## What is written -/

theorem space_le_of_mem_controlEscape (hc : c.toNat < 0x20) :
    ∀ d ∈ controlEscape c, 0x20 ≤ d.toNat := by
  have hdigit : ∀ n < 0x20, 0x20 ≤ (Nat.digitChar (n / 16)).toNat ∧
      0x20 ≤ (Nat.digitChar (n % 16)).toNat := by
    decide
  rw [controlEscape]
  repeat' split
  all_goals simp [hdigit _ hc]

/-- What stands inside quotes has no controls below the space. -/
theorem space_le_of_mem_escaped : ∀ d ∈ escaped c, 0x20 ≤ d.toNat := by
  rw [escaped]
  split
  · simp
  · split
    · simp
    · split
      · next hcontrol => exact space_le_of_mem_controlEscape hcontrol
      · next hspace => simpa using hspace

/-- **No controls are written** for a text in quotes. -/
theorem space_le_of_mem_quoted {s : String} : ∀ d ∈ quoted s, 0x20 ≤ d.toNat := by
  intro d hd
  simp only [quoted, List.cons_append, List.mem_cons, List.mem_append, List.mem_flatMap,
    List.not_mem_nil, or_false] at hd
  rcases hd with rfl | ⟨c, -, hd⟩ | rfl
  · decide
  · exact space_le_of_mem_escaped d hd
  · decide

end Parcel.Json
