import Tabula.Definition.NameText
import Tabula.Number.Whole

/-!
# Written enums

The header of an enum is the word for an enum, a name, a kind after a colon and a
description after two slashes; kind and description may be missing.  A line of an enum
is a name, a value after an equals sign and a comment after two slashes, of which only
the name is needed.  Blanks may stand between the parts, and a description ends with the
line.
-/

namespace Tabula

/-- The header of an enum. -/
structure EnumHeader where
  name : String
  kind : Option String
  description : Option String
  deriving DecidableEq

/-- One line of an enum. -/
structure EnumLine where
  name : String
  value : Option Long
  comment : String
  deriving DecidableEq

namespace Text

/-- What stands after two slashes at the end of a text, without the blanks around it; the
text may also end without slashes.  It has to stand on one line. -/
def takeRemark? (source : List Char) : Option (Option (List Char)) :=
  match trimStart source with
  | [] => some none
  | '/' :: '/' :: rest =>
    let remark := trimStart rest
    if remark.contains '\n' then none else some (some (trimEnd remark))
  | _ => none

/-- A mark between blanks and what follows it. -/
def takeMark? (mark : Char) (source : List Char) : Option (List Char) :=
  match trimStart source with
  | c :: rest => if c = mark then some (trimStart rest) else none
  | [] => none

/-- The kind after the name of an enum and what follows it; without one, all of the text
follows. -/
def takeKindWord (source : List Char) : Option (List Char) × List Char :=
  match takeMark? ':' source with
  | none => (none, source)
  | some rest =>
    let word := rest.takeWhile isWord
    if word = [] then (none, source) else (some word, rest.dropWhile isWord)

/-- The value after the name of an enum line and what follows it; without one, all of
the text follows. -/
def takeValueWord (source : List Char) : Option (List Char) × List Char :=
  match takeMark? '=' source with
  | none => (none, source)
  | some rest =>
    let (sign, size) :=
      match rest with
      | '-' :: size => (['-'], size)
      | size => ([], size)
    let digits := size.takeWhile isDigit
    if digits = [] then (none, source) else (some (sign ++ digits), size.dropWhile isDigit)

/-- The character may stand in the name of a header, before the name is checked. -/
def isHeaderName (c : Char) : Bool :=
  !isBlank c && c ≠ ':' && c ≠ '/'

/-- The parts of a trimmed header. -/
def enumHeader? (source : List Char) : Option EnumHeader :=
  match source with
  | 'e' :: 'n' :: 'u' :: 'm' :: rest =>
    let named := trimStart rest
    let name := named.takeWhile isHeaderName
    if named = rest ∨ name = [] then none
    else
      let (kind, rest) := takeKindWord (named.dropWhile isHeaderName)
      (takeRemark? rest).map fun remark =>
        { name := .ofList name
          kind := kind.map .ofList
          description := (remark.bind fun text => if text = [] then none else some text).map
            .ofList }
  | _ => none

/-- The parts of a trimmed line. -/
def enumLine? (source : List Char) : Option EnumLine :=
  match source with
  | [] => none
  | c :: rest =>
    if isNameStart c || c = '_' then
      let name := c :: rest.takeWhile isWord
      let (word, rest) := takeValueWord (rest.dropWhile isWord)
      match takeRemark? rest with
      | none => none
      | some remark =>
        let comment := String.ofList (remark.getD [])
        match word with
        | none => some { name := .ofList name, value := none, comment }
        | some word =>
          ((integer? word).bind (Whole.ofInt? .bits64)).map fun value =>
            { name := .ofList name, value := some value, comment }
    else none

end Text

namespace Definition

open Text

/-- Reads the header of an enum. -/
def readEnumHeader (header : String) : Except DefinitionError EnumHeader :=
  let trimmed := trim header.toList
  match enumHeader? trimmed with
  | none => .error (.invalidEnumHeader (.ofList trimmed))
  | some parts => do
    checkName parts.name "enum name"
    return parts

/-- Reads a line of an enum. -/
def readEnumLine (enum line : String) : Except DefinitionError EnumLine :=
  let trimmed := trim line.toList
  match enumLine? trimmed with
  | none => .error (.invalidEnumLine enum (.ofList trimmed))
  | some parts => .ok parts

end Definition

end Tabula
