import Tabula.Definition.EnumText
import Tabula.Json
import Tabula.Table.Batch

/-!
# Enum tables

An enum is a table of entries with a name, a value and a comment.  Values count up from
zero, and a value that a line gives restarts the count.  Without a declared kind the
values are stored in the narrowest kind that holds the largest of them.
-/

namespace Tabula

/-- One entry of an enum. -/
structure EnumEntry where
  name : String
  value : Long
  comment : String
  deriving DecidableEq

namespace Definition

/-- The columns of every enum table. -/
def enumNameField : String := "name"

/-- The column of the values. -/
def enumValueField : String := "value"

/-- The column of the comments. -/
def enumCommentField : String := "comment"

/-- The schema of an enum whose values are of a kind. -/
def enumSchema (name : String) (kind : Kind) : Except DefinitionError Schema :=
  (Schema.ofFields name
    [.ofKind enumNameField (.scalar .text), .ofKind enumValueField kind,
      .ofKind enumCommentField (.scalar .text)]).mapError .refusedSchema

/-- A shape where another was expected. -/
def unexpected (context expected : String) (found : Json) : DefinitionError :=
  .unexpectedShape context expected found.shapeName

/-- What a message calls an enum. -/
def enumContext (name : String) : String :=
  s!"enum '{name}'"

/-- The kind that a header declares, if it declares one. -/
def declaredWidth (name : String) : Option String → Except DefinitionError (Option IntegerWidth)
  | none => .ok none
  | some word =>
    match ScalarKind.ofKeyword? word with
    | none => .error (.invalidEnumHeader s!"enum {name}: {word}")
    | some (.integer width) => .ok (some width)
    | some kind => .error (.invalidEnumKind name (.scalar kind))

/-- Reads the lines of an enum.  `next` is the value of a line that gives none, and `seen`
holds the names of the lines before. -/
def readEnumEntries (enum : String) (seen : NameSet) (next : Long) :
    List Json → Except DefinitionError (List EnumEntry)
  | [] => .ok []
  | line :: lines =>
    match line.asText? with
    | none => .error (unexpected (enumContext enum) "string row" line)
    | some written => do
      let parts ← readEnumLine enum written
      let value := parts.value.getD next
      if value.value < 0 then .error (.negativeEnumValue enum value.value)
      else if seen.contains parts.name then .error (.duplicate parts.name "enum entry")
      else do
        let entries ← readEnumEntries enum (seen.insert parts.name) value.next lines
        return ⟨parts.name, value, parts.comment⟩ :: entries

/-- The largest value of the entries, and at least zero. -/
def largestValue (entries : List EnumEntry) : Int :=
  entries.foldl (fun largest entry => max largest entry.value.value) 0

/-- The width in which the values of an enum are stored. -/
def enumWidth (name : String) (declared : Option IntegerWidth) (largest : Int) :
    Except DefinitionError IntegerWidth :=
  match declared with
  | none => .ok (.smallestFor largest)
  | some width =>
    if width.maximum < largest then
      .error (.enumOutOfRange name largest (.scalar (.integer width)))
    else .ok width

/-- The row of an entry, before its value takes the kind of its column. -/
def EnumEntry.toRow (entry : EnumEntry) : Row :=
  [some (.text entry.name), some (.integer .bits64 entry.value),
    some (.text entry.comment)]

/-- The entries and the width of an enum. -/
def readEnumParts (header : EnumHeader) (body : Json) :
    Except DefinitionError (List EnumEntry × IntegerWidth) := do
  let declared ← declaredWidth header.name header.kind
  match body with
  | .array lines => do
    let entries ←
      readEnumEntries header.name .empty (.ofBool .bits64 false) lines
    let width ← enumWidth header.name declared (largestValue entries)
    return (entries, width)
  | other => .error (unexpected (enumContext header.name) "array of rows" other)

/-- The empty table of an enum. -/
def emptyEnumTable (header : EnumHeader) (width : IntegerWidth) :
    Except DefinitionError Table := do
  let schema ← enumSchema header.name (.scalar (.integer width))
  let flat ←
    (FlatSchema.ofSchema { schema with description := header.description.getD "" }).mapError
      .refusedSchema
  return .ofSchema header.name flat

/-- Reads an enum from its header and its body. -/
def readEnumTable (header : String) (body : Json) : Traced DefinitionError Table := do
  let header ← Traced.ofResult (readEnumHeader header)
  let (entries, width) ← Traced.ofResult (readEnumParts header body)
  let table ← Traced.ofResult (emptyEnumTable header width)
  let step := table.addRows (entries.map EnumEntry.toRow)
  let _ ← (⟨step.events, step.result.mapError .refusedTable⟩ : Traced DefinitionError Nat)
  Traced.record (.enumRead step.state.name step.state.rows.length (.scalar (.integer width)))
  return step.state

end Definition

end Tabula
