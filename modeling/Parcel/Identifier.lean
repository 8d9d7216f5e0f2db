import Parcel.Error

/-!
# Identifiers

Interfaces and operations are named by non-empty texts of ASCII letters, digits and four marks.

## Main definitions

* `isIdentifier`, `Identifier.validate`: the grammar, as a test and as a check
* `Identifier`: a text that meets it
* `Identifier.ofString`: the identifier of a text
-/

namespace Parcel

/-- Whether identifiers may hold a character. -/
def isIdentifierCharacter (c : Char) : Bool :=
  c.isAlphanum || c = '_' || c = '-' || c = '.' || c = ':'

/-- Whether a text may name an interface or an operation. -/
def isIdentifier (s : String) : Bool :=
  !s.toList.isEmpty && s.toList.all isIdentifierCharacter

/-- The name of an interface or an operation. -/
structure Identifier where
  text : String
  isValid : isIdentifier text = true
deriving DecidableEq

namespace Identifier

/-- A text is refused unless it is an identifier. -/
def validate (s : String) : Except Error Unit :=
  if isIdentifier s then .ok () else .error (.invalidIdentifier s)

/-- The identifier with a given text. -/
def ofString (s : String) : Except Error Identifier :=
  if h : isIdentifier s = true then .ok ⟨s, h⟩ else .error (.invalidIdentifier s)

instance : Ord Identifier where
  compare a b := compareOfLessAndEq a.text b.text

/-- The text of an identifier gives the identifier back. -/
theorem ofString_text (identifier : Identifier) :
    ofString identifier.text = .ok identifier := by
  simp [ofString, identifier.isValid]

end Identifier

end Parcel
