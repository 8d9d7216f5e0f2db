import Parcel.Json.Numeral

/-!
# Reading JSON text

A value, then only blanks. Containers may lie 127 deep inside each other; a repeated key keeps its
first place and takes its last value. A text that is no value is refused without saying why or
where: no message gives more than that it is invalid.

## Main definitions

* `Json.readText?`: a text behind its opening quote
* `Json.readValue?`: the value at the front of a text
* `Json.parse?`: the value that a whole text holds
-/

namespace Parcel.Json

/-- Space, tab, line feed and carriage return. -/
def isBlank (c : Char) : Bool :=
  c = ' ' || c = '\t' || c = '\n' || c = '\r'

/-- The text behind its leading blanks. -/
def skipBlanks (cs : List Char) : List Char :=
  cs.dropWhile isBlank

/-- The value of a hexadecimal digit of either case. -/
def hexValue? (c : Char) : Option Nat :=
  if c.isDigit then some (c.toNat - '0'.toNat)
  else if 'a' ≤ c ∧ c ≤ 'f' then some (c.toNat - 'a'.toNat + 10)
  else if 'A' ≤ c ∧ c ≤ 'F' then some (c.toNat - 'A'.toNat + 10)
  else none

/-- The number that four hexadecimal digits stand for. -/
def hexUnit? (a b c d : Char) : Option Nat := do
  return 4096 * (← hexValue? a) + 256 * (← hexValue? b) + 16 * (← hexValue? c) + (← hexValue? d)

/-- The character that a backslash and the given letter stand for. -/
def simpleEscape? (c : Char) : Option Char :=
  if c = '"' ∨ c = '\\' ∨ c = '/' then some c
  else if c = 'b' then some (Char.ofNat 8)
  else if c = 'f' then some (Char.ofNat 12)
  else if c = 'n' then some '\n'
  else if c = 'r' then some '\r'
  else if c = 't' then some '\t'
  else none

/-- The first half of a pair that stands for one character. -/
def isLeading (unit : Nat) : Bool :=
  0xd800 ≤ unit && unit < 0xdc00

/-- The second half of such a pair. -/
def isTrailing (unit : Nat) : Bool :=
  0xdc00 ≤ unit && unit < 0xe000

/-- The character that two halves stand for. -/
def paired (leading trailing : Nat) : Char :=
  Char.ofNat (0x10000 + 1024 * (leading - 0xd800) + (trailing - 0xdc00))

/-- The characters up to the closing quote, behind those already read, which come in reverse, with
the rest. Controls below the space must be escaped, and halves of a pair must come in pairs. -/
def readText? (read : List Char) : List Char → Option (List Char × List Char)
  | [] => none
  | '"' :: rest => some (read.reverse, rest)
  | '\\' :: 'u' :: a :: b :: c :: d :: rest =>
    match hexUnit? a b c d with
    | none => none
    | some unit =>
      if isTrailing unit then none
      else if isLeading unit then
        match rest with
        | '\\' :: 'u' :: a :: b :: c :: d :: rest =>
          match hexUnit? a b c d with
          | none => none
          | some second =>
            if isTrailing second then readText? (paired unit second :: read) rest else none
        | _ => none
      else readText? (Char.ofNat unit :: read) rest
  | '\\' :: c :: rest =>
    match simpleEscape? c with
    | some c => readText? (c :: read) rest
    | none => none
  | c :: rest => if c.toNat < 0x20 ∨ c = '\\' then none else readText? (c :: read) rest

/-- The items of an array behind the opening bracket or a comma, up to the closing bracket, behind
those already read, which come in reverse. There is an item for each unit of `fuel`, and every item
takes at least one character. -/
def readItems? (readItem? : List Char → Option (Json × List Char)) (fuel : Nat) (read : List Json)
    (cs : List Char) : Option (List Json × List Char) :=
  match fuel with
  | 0 => none
  | fuel + 1 =>
    match readItem? cs with
    | none => none
    | some (item, cs) =>
      match skipBlanks cs with
      | ',' :: cs => readItems? readItem? fuel (item :: read) cs
      | ']' :: cs => some ((item :: read).reverse, cs)
      | _ => none

/-- A key and its value, behind blanks. -/
def readEntry? (readItem? : List Char → Option (Json × List Char)) (cs : List Char) :
    Option ((String × Json) × List Char) :=
  match skipBlanks cs with
  | '"' :: cs =>
    match readText? [] cs with
    | none => none
    | some (key, cs) =>
      match skipBlanks cs with
      | ':' :: cs =>
        match readItem? cs with
        | none => none
        | some (value, cs) => some ((String.ofList key, value), cs)
      | _ => none
  | _ => none

/-- The entries of an object behind the opening brace or a comma, up to the closing brace, inserted
into those already read. There is an entry for each unit of `fuel`. -/
def readEntries? (readItem? : List Char → Option (Json × List Char)) (fuel : Nat) (read : Entries)
    (cs : List Char) : Option (Entries × List Char) :=
  match fuel with
  | 0 => none
  | fuel + 1 =>
    match readEntry? readItem? cs with
    | none => none
    | some ((key, value), cs) =>
      match skipBlanks cs with
      | ',' :: cs => readEntries? readItem? fuel (Entries.insert read key value) cs
      | '\x7d' :: cs => some (Entries.insert read key value, cs)
      | _ => none

/-- The rest of the text behind a literal. -/
def readLiteral? (literal : List Char) (value : Json) (cs : List Char) :
    Option (Json × List Char) :=
  if literal.isPrefixOf cs then some (value, cs.drop literal.length) else none

/-- The value at the front of a text behind blanks, and the rest; at most `levels` containers lie
inside each other. -/
def readValue? (levels : Nat) (cs : List Char) : Option (Json × List Char) :=
  match skipBlanks cs with
  | [] => none
  | '"' :: cs => (readText? [] cs).map fun (found, cs) => (.text (String.ofList found), cs)
  | '[' :: cs =>
    match levels with
    | 0 => none
    | levels + 1 =>
      match skipBlanks cs with
      | ']' :: cs => some (.array [], cs)
      | cs => (readItems? (readValue? levels) cs.length [] cs).map fun (items, cs) =>
          (.array items, cs)
  | '\x7b' :: cs =>
    match levels with
    | 0 => none
    | levels + 1 =>
      match skipBlanks cs with
      | '\x7d' :: cs => some (.object [], cs)
      | cs => (readEntries? (readValue? levels) cs.length [] cs).map fun (entries, cs) =>
          (.object entries, cs)
  | 'n' :: _ => readLiteral? ['n', 'u', 'l', 'l'] .null (skipBlanks cs)
  | 't' :: _ => readLiteral? ['t', 'r', 'u', 'e'] (.bool true) (skipBlanks cs)
  | 'f' :: _ => readLiteral? ['f', 'a', 'l', 's', 'e'] (.bool false) (skipBlanks cs)
  | cs =>
    match Numeral.read? cs with
    | none => none
    | some (numeral, cs) => numeral.value?.map fun value => (value, cs)

/-- How many containers may lie inside each other. -/
def parserLevels : Nat := 127

/-- The value that a text holds, blanks around it aside. -/
def parse? (s : String) : Option Json :=
  match readValue? parserLevels s.toList with
  | none => none
  | some (value, cs) => if (skipBlanks cs).isEmpty then some value else none

end Parcel.Json
