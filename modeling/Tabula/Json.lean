import Tabula.Number.Numeral

/-!
# JSON trees

A tree keeps the entries of an object in document order with repeated names, because
the order of fields matters and a repeated field has to be noticed.  The compact text
of a tree, used in messages, sorts the names of each object instead and keeps the last
of repeated names.
-/

namespace Tabula

/-- A number of a document: an integer of 64 bits, signed or not, or a real. -/
inductive JsonNumber where
  | integer (number : Int)
  | real (number : Floating .double)
  deriving DecidableEq

/-- A JSON tree. -/
inductive Json where
  | null
  | boolean (bit : Bool)
  | number (value : JsonNumber)
  | text (content : String)
  | array (items : List Json)
  | object (entries : List (String × Json))

/-- The text of a number; a real that has none is written as nothing at all. -/
def JsonNumber.toText : JsonNumber → String
  | integer number => Text.integerText number
  | real number => (Text.documentText? number).getD "null"

/-- The number as a number of 64 bits. -/
def JsonNumber.asLong? : JsonNumber → Option Long
  | integer number => Whole.ofInt? .bits64 number
  | real _ => none

namespace Json

/-- What a message calls the shape of a tree. -/
def shapeName : Json → String
  | null => "null"
  | boolean _ => "boolean"
  | number _ => "number"
  | text _ => "string"
  | array _ => "array"
  | object _ => "object"

/-- The content of a text. -/
def asText? : Json → Option String
  | text content => some content
  | _ => none

theorem asText?_eq_some_iff {tree : Json} {content : String} :
    tree.asText? = some content ↔ tree = .text content := by
  cases tree <;> simp [asText?]

/-- The truth value of a Boolean. -/
def asBoolean? : Json → Option Bool
  | boolean bit => some bit
  | _ => none

/-- The number of 64 bits of an integer that has one. -/
def asLong? : Json → Option Long
  | number value => value.asLong?
  | _ => none

/-- The text that a text, a number or a Boolean stands for as a literal. -/
def scalarText? : Json → Option String
  | text content => some content
  | number value => some value.toText
  | boolean bit => some (if bit then "true" else "false")
  | _ => none

/-! ## Compact text -/

/-- The digit of a number below sixteen. -/
def hexDigit (digit : Nat) : Char :=
  if digit < 10 then Char.ofNat (0x30 + digit) else Char.ofNat (0x57 + digit)

/-- A character inside a quoted text.  Quotes, backslashes and control characters are
escaped and nothing else is. -/
def escaped (c : Char) : List Char :=
  if c = '"' then ['\\', '"']
  else if c = '\\' then ['\\', '\\']
  else if c = '\n' then ['\\', 'n']
  else if c = '\r' then ['\\', 'r']
  else if c = '\t' then ['\\', 't']
  else if c.toNat = 8 then ['\\', 'b']
  else if c.toNat = 12 then ['\\', 'f']
  else if c.toNat < 0x20 then
    ['\\', 'u', '0', '0', hexDigit (c.toNat / 16), hexDigit (c.toNat % 16)]
  else [c]

/-- A quoted text. -/
def quoted (content : String) : List Char :=
  '"' :: (content.toList.flatMap escaped ++ ['"'])

/-- Files a text under a name, names ascending by code points and each of them once. -/
def fileEntry (name : String) (body : List Char) :
    List (String × List Char) → List (String × List Char)
  | [] => [(name, body)]
  | (other, held) :: rest =>
    if name = other then (name, body) :: rest
    else if name < other then (name, body) :: (other, held) :: rest
    else (other, held) :: fileEntry name body rest

/-- Texts joined by commas. -/
def commaSeparated : List (List Char) → List Char
  | [] => []
  | [last] => last
  | first :: rest => first ++ ',' :: commaSeparated rest

mutual

/-- The compact text of a tree. -/
def compact : Json → List Char
  | null => ['n', 'u', 'l', 'l']
  | boolean bit => if bit then ['t', 'r', 'u', 'e'] else ['f', 'a', 'l', 's', 'e']
  | number value => value.toText.toList
  | text content => quoted content
  | array items => '[' :: (commaSeparated (compactItems items) ++ [']'])
  | object entries =>
    let filed := (compactEntries entries).foldl
      (fun filed (name, body) => fileEntry name body filed) []
    let written := filed.map fun (name, body) => quoted name ++ ':' :: body
    '{' :: (commaSeparated written ++ ['}'])

/-- The compact texts of the items of an array. -/
def compactItems : List Json → List (List Char)
  | [] => []
  | item :: items => compact item :: compactItems items

/-- The names and compact texts of the entries of an object. -/
def compactEntries : List (String × Json) → List (String × List Char)
  | [] => []
  | (name, body) :: entries => (name, compact body) :: compactEntries entries

end

/-- The compact text of a tree as a string. -/
def compactText (tree : Json) : String :=
  String.ofList tree.compact

end Json

end Tabula
