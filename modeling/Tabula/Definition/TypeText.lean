import Tabula.Definition.NameText
import Tabula.Field
import Tabula.Text.Digit

/-!
# Written types

A type is written as the word of a scalar kind, as a list of a type and a count, as the
path of a lookup, or as the name of a definition.  The path of a lookup is tried first,
because its parts may be any words, and the name of a definition last.  What follows
the type is left to the reader of the field.

A list keeps its text as it was written; of the other forms the parts are the text.
-/

namespace Tabula

/-- A type as it was written. -/
inductive WrittenType where
  | scalar (word : String) (kind : ScalarKind)
  | reference (table keyField pickedField : String)
  | named (candidate : String)
  | list (written : String) (element : WrittenType) (count : Nat)

namespace WrittenType

/-- The field of a written type. -/
def toField (name : String) : WrittenType → Field
  | scalar word kind =>
    .single { name, typeText := word, shape := .scalar kind none }
  | reference table keyField pickedField =>
    .lookup name { table, keyField, pickedField }
  | named candidate => .unresolved name candidate
  | list written element count =>
    .withElement { name, typeText := written, shape := .list count } (element.toField "")

end WrittenType

namespace Text

/-- The three names of a lookup path and what follows it. -/
def takeReference? (source : List Char) :
    Option (List Char × List Char × List Char × List Char) := do
  let (table, rest) ← takeName? source
  match rest with
  | '.' :: rest =>
    let (keyField, rest) ← takeName? rest
    match rest with
    | '.' :: '$' :: rest =>
      let (pickedField, rest) ← takeName? rest
      return (table, keyField, pickedField, rest)
    | _ => none
  | _ => none

/-- The scalar word at the start of a text, its kind and what follows it.  The word has
to be a word of its own. -/
def takeScalar? (source : List Char) : Option (String × ScalarKind × List Char) :=
  let word := String.ofList (source.takeWhile isWord)
  (ScalarKind.ofKeyword? word).map fun kind => (word, kind, source.dropWhile isWord)

/-- What follows the opening of a list. -/
def listBody? : List Char → Option (List Char)
  | 'l' :: 'i' :: 's' :: 't' :: rest =>
    match trimStart rest with
    | '<' :: rest => some (trimStart rest)
    | _ => none
  | _ => none

/-- The largest count of a list. -/
def countLimit : Nat :=
  18446744073709551615

/-- The count that closes a list and what follows it.  The count may be written in the
digits of any script, but only basic digits stand for a number. -/
def listClosing? (source : List Char) : Option (Nat × List Char) :=
  match trimStart source with
  | ',' :: rest =>
    let counted := trimStart rest
    match trimStart (counted.dropWhile isDigit) with
    | '>' :: rest =>
      match natural? (counted.takeWhile isDigit) with
      | some count => if count ≠ 0 ∧ count ≤ countLimit then some (count, rest) else none
      | none => none
    | _ => none
  | _ => none

theorem length_trimStart_le (source : List Char) :
    (trimStart source).length ≤ source.length :=
  (List.dropWhile_sublist _).length_le

/-- The body of a list is shorter than the list. -/
theorem length_listBody?_lt {source body : List Char}
    (opened : listBody? source = some body) : body.length < source.length := by
  unfold listBody? at opened
  split at opened
  · rename_i rest
    have shorter := length_trimStart_le rest
    split at opened
    · rename_i inner trimmed
      have inside := length_trimStart_le inner
      simp only [Option.some.injEq] at opened
      subst opened
      rw [trimmed] at shorter
      simp only [List.length_cons] at shorter ⊢
      omega
    · simp at opened
  · simp at opened

end Text

namespace Definition

open Text

/-- Reads the type at the start of a text that starts with no blank.  A refusal shows the
whole text and names the field, whose elements have no name. -/
def readTypeFrom (field : String) (source : List Char) :
    Except DefinitionError (WrittenType × List Char) :=
  let refusal := DefinitionError.invalidType field (String.ofList source)
  match takeReference? source with
  | some (table, keyField, pickedField, rest) =>
    .ok (.reference (.ofList table) (.ofList keyField) (.ofList pickedField), rest)
  | none =>
    match takeScalar? source with
    | some (word, kind, rest) => .ok (.scalar word kind, rest)
    | none =>
      match _opened : listBody? source with
      | some body => do
        let (element, rest) ← readTypeFrom "" body
        match listClosing? rest with
        | some (count, rest) =>
          let written := source.take (source.length - rest.length)
          return (.list (.ofList written) element count, rest)
        | none => .error refusal
      | none =>
        match takeName? source with
        | some (candidate, rest) => .ok (.named (.ofList candidate), rest)
        | none => .error refusal
termination_by source.length
decreasing_by exact length_listBody?_lt (by assumption)

/-- Reads the type at the start of a text, after its leading blanks. -/
def readType (field : String) (source : List Char) :
    Except DefinitionError (WrittenType × List Char) :=
  readTypeFrom field (trimStart source)

/-! ## What follows a type -/

/-- The text without one pair of equal quotes around it. -/
def unquote (source : List Char) : List Char :=
  if 2 ≤ source.length ∧
      ((source.head? = some '\'' ∧ source.getLast? = some '\'') ∨
        (source.head? = some '"' ∧ source.getLast? = some '"')) then
    source.tail.dropLast
  else source

/-- Splits a text at its first pair of slashes; without one, nothing follows. -/
def splitAtSlashes : List Char → List Char × Option (List Char)
  | [] => ([], none)
  | '/' :: '/' :: rest => ([], some rest)
  | c :: rest =>
    let (before, after) := splitAtSlashes rest
    (c :: before, after)

/-- A text that is not empty. -/
def nonEmpty? (source : List Char) : Option (List Char) :=
  if source = [] then none else some source

/-- The literal and the description that follow a type.  Either may be missing. -/
def splitLiteral (source : List Char) : Option (List Char) × Option (List Char) :=
  let (before, after) := splitAtSlashes source
  ((nonEmpty? (trim before)).map unquote, after.bind fun text => nonEmpty? (trim text))

end Definition

end Tabula
