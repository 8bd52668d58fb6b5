import Tabula.Definition.Comments
import Tabula.Definition.EnumTable
import Tabula.Definition.Options
import Tabula.Definition.TypeText
import Tabula.Field.Fallback
import Tabula.Json.Reader

/-!
# Reading definitions

A document is an array of definitions, or a single one.  A definition is an object: an
enum when its first key starts with the word for an enum, a schema otherwise.  The
fields of a schema are written in short, as one text of a type, a literal and a
description, or at length, as an object.

Keys that mean nothing are skipped and recorded, or refused by the strict reading.
-/

namespace Tabula

/-- One definition of a document. -/
inductive Definition where
  | schema (schema : Schema)
  | enumTable (table : Table)

namespace Definition

open Text

/-! ## Parts of a tree -/

/-- The content of a text. -/
def expectText (context : String) (tree : Json) : Except DefinitionError String :=
  match tree.asText? with
  | some content => .ok content
  | none => .error (unexpected context "string" tree)

/-- The truth value of a Boolean. -/
def expectBoolean (context : String) (tree : Json) : Except DefinitionError Bool :=
  match tree.asBoolean? with
  | some bit => .ok bit
  | none => .error (unexpected context "boolean" tree)

/-- The number of 64 bits of an integer. -/
def expectLong (context : String) (tree : Json) : Except DefinitionError Long :=
  match tree.asLong? with
  | some number => .ok number
  | none => .error (unexpected context "integer" tree)

/-- The texts of an array, each without the blanks around it. -/
def readTexts (context : String) (tree : Json) : Except DefinitionError (List String) :=
  match tree with
  | .array items => items.mapM fun item => (expectText context item).map trimText
  | other => .error (unexpected context "array of strings" other)

/-- Adds names to a set that must not hold them yet. -/
def addNames (role : String) (set : NameSet) : List String → Except DefinitionError NameSet
  | [] => .ok set
  | name :: names =>
    if set.contains name then .error (.duplicate name role)
    else addNames role (set.insert name) names

/-- Adds the names of an array to a set that must not hold them yet. -/
def readNames (role : String) (set : NameSet) (tree : Json) :
    Except DefinitionError NameSet := do
  let names ← readTexts role tree
  addNames role set names

/-- Skips a key that means nothing, or refuses it. -/
def skipUnknown (options : Options) (key context : String) : Traced DefinitionError Unit :=
  if options.strictKeys then .fail (.unknownKey key context)
  else .record (.skippedKey key context)

/-! ## Fields -/

/-- What a message calls a field. -/
def fieldContext (name : String) : String :=
  s!"field '{name}'"

/-- A field and the literal of its fallback, which is put to the test last. -/
structure FieldDraft where
  head : FieldHead
  literal : Option String

/-- Reads one entry of a field written at length. -/
def readFieldEntry (options : Options) (name : String) (draft : FieldDraft)
    (key : String) (tree : Json) : Traced DefinitionError FieldDraft :=
  let head := draft.head
  let change (result : Except DefinitionError FieldHead) : Traced DefinitionError FieldDraft :=
    .ofResult (result.map fun head => { draft with head })
  match key with
  | "type" => pure draft
  | "default" =>
    match tree with
    | .null => pure { draft with literal := none }
    | other =>
      match other.scalarText? with
      | some literal => pure { draft with literal := some literal }
      | none => .fail (unexpected (fieldContext name) "scalar default" other)
  | "desc" | "description" =>
    change ((expectText "field description" tree).map fun text =>
      { head with description := text })
  | "disables" =>
    change ((readNames "disable tag" head.disabled tree).map fun set =>
      { head with disabled := set })
  | "groups" =>
    change ((readNames "group name" head.groups tree).map fun set =>
      { head with groups := set })
  | "keys" =>
    change ((readNames "key name" head.keys tree).map fun set => { head with keys := set })
  | "nullable" =>
    change ((expectBoolean "nullable" tree).map fun bit => { head with nullable := bit })
  | "auto_increment" =>
    change ((expectBoolean "auto_increment" tree).map fun bit =>
      { head with autoIncrement := bit })
  | "auto_increment_seed" =>
    change ((expectLong "auto_increment_seed" tree).map fun seed =>
      { head with seed := some seed })
  | "unique" =>
    change ((expectBoolean "unique" tree).map fun bit => { head with unique := bit })
  | "non_serialized" =>
    change ((expectBoolean "non_serialized" tree).map fun bit =>
      { head with transient := bit })
  | other => (skipUnknown options other (fieldContext name)).andThen fun _ => pure draft

/-- Reads the entries of a field written at length, in order. -/
def readFieldEntries (options : Options) (name : String) (draft : FieldDraft) :
    List (String × Json) → Traced DefinitionError FieldDraft
  | [] => pure draft
  | (key, tree) :: entries =>
    (readFieldEntry options name draft key tree).andThen fun draft =>
      readFieldEntries options name draft entries

/-- The type of a field written at length.  Nothing may follow it. -/
def readFieldType (name : String) (entries : List (String × Json)) :
    Except DefinitionError Field :=
  match entries.find? (·.1 = "type") with
  | none => .error (.invalidType name "")
  | some (_, tree) => do
    let written ← expectText "field type" tree
    let (type, rest) ← readType name written.toList
    if trim rest = [] then return type.toField name
    else .error (.invalidType name written)

/-- The field without fallback and the literal of its fallback, from the short form. -/
def readShortField (name : String) (written : String) :
    Except DefinitionError (Field × Option String) := do
  let (type, rest) ← readType name (trim written.toList)
  let (literal, description) := splitLiteral rest
  let field := (type.toField name).mapHead fun head =>
    { head with description := (description.map String.ofList).getD "" }
  return (field, literal.map String.ofList)

/-- The field without fallback and the literal of its fallback, from the long form. -/
def readLongField (options : Options) (name : String) (entries : List (String × Json)) :
    Traced DefinitionError (Field × Option String) := do
  let field ← Traced.ofResult (readFieldType name entries)
  let draft ← readFieldEntries options name ⟨field.head, none⟩ entries
  return (field.mapHead fun _ => draft.head, draft.literal)

/-- The field with the seed of the options, when it counts and declares none. -/
def seedField (options : Options) (field : Field) : Field :=
  if field.head.autoIncrement ∧ field.head.seed = none then
    field.mapHead fun head => { head with seed := some options.seed }
  else field

/-- The field with the fallback that a literal stands for. -/
def applyLiteral (name : String) (field : Field) : Option String →
    Except DefinitionError Field
  | none => .ok field
  | some literal =>
    (field.setFallback (.text literal)).mapError fun refusal =>
      .invalidFallback name literal refusal

/-- Reads a field in its short or its long form. -/
def readField (options : Options) (name : String) (tree : Json) :
    Traced DefinitionError Field := do
  let (field, literal) ←
    match tree with
    | .text written => Traced.ofResult (readShortField name written)
    | .object entries => readLongField options name entries
    | other => Traced.fail (unexpected (fieldContext name) "string or object" other)
  Traced.ofResult (applyLiteral name (seedField options field) literal)

/-! ## Schemas -/

/-- What a message calls a schema. -/
def schemaContext (name : String) : String :=
  s!"schema '{name}'"

/-- Reads the fields of a schema, in order. -/
def readFields (options : Options) (schema : Schema) :
    List (String × Json) → Traced DefinitionError Schema
  | [] => pure schema
  | (written, tree) :: entries =>
    let name := trimText written
    (Traced.ofResult (checkName name "field name")).andThen fun _ =>
      if schema.hasField name then .fail (.duplicate name "field name")
      else
        (readField options name tree).andThen fun field =>
          (Traced.ofResult ((schema.addField field).mapError .refusedSchema)).andThen
            fun schema => readFields options schema entries

/-- Adds the names of partial tables to a schema that must not have them yet. -/
def addPartials (schema : Schema) : List String → Except DefinitionError Schema
  | [] => .ok schema
  | name :: names => do
    checkPartialName name
    if schema.partials.contains name then .error (.duplicate name "partial name")
    else addPartials (schema.addPartial name) names

/-- A schema being read, and whether its name has been read. -/
structure SchemaDraft where
  schema : Schema
  named : Bool

/-- Reads one entry of a schema. -/
def readSchemaEntry (options : Options) (draft : SchemaDraft) (key : String)
    (tree : Json) : Traced DefinitionError SchemaDraft :=
  let schema := draft.schema
  match key with
  | "name" => .ofResult do
    let name := trimText (← expectText "schema name" tree)
    checkName name "schema name"
    return ⟨{ schema with name }, true⟩
  | "fields" =>
    match tree with
    | .object entries =>
      (readFields options schema entries).andThen fun schema =>
        pure { draft with schema }
    | other =>
      let context := schemaContext schema.name
      .fail (unexpected s!"fields of {context}" "object" other)
  | "partials" | "parts" => .ofResult do
    let names ← readTexts "partials" tree
    let schema ← addPartials schema names
    return { draft with schema }
  | "embed" => .ofResult do
    let bit ← expectBoolean "embed" tree
    return { draft with schema := { schema with embed := bit } }
  | "desc" | "description" => .ofResult do
    let text ← expectText "schema description" tree
    return { draft with schema := { schema with description := text } }
  | other =>
    (skipUnknown options other (schemaContext schema.name)).andThen fun _ => pure draft

/-- Reads the entries of a schema, in order. -/
def readSchemaEntries (options : Options) (draft : SchemaDraft) :
    List (String × Json) → Traced DefinitionError SchemaDraft
  | [] => pure draft
  | (key, tree) :: entries =>
    (readSchemaEntry options draft key tree).andThen fun draft =>
      readSchemaEntries options draft entries

/-- Reads a schema, which needs a name. -/
def readSchema (options : Options) (entries : List (String × Json)) :
    Traced DefinitionError Schema :=
  (readSchemaEntries options ⟨.named "", false⟩ entries).andThen fun draft =>
    if draft.named then pure draft.schema else .fail .missingName

/-! ## Definitions and documents -/

/-- Skips the keys that follow the first one of an enum. -/
def skipFurtherKeys (options : Options) (context : String) :
    List (String × Json) → Traced DefinitionError Unit
  | [] => pure ()
  | (key, _) :: entries =>
    (skipUnknown options key context).andThen fun _ =>
      skipFurtherKeys options context entries

/-- The key announces an enum. -/
def announcesEnum (key : String) : Bool :=
  ['e', 'n', 'u', 'm', ' '].isPrefixOf key.toList

/-- Reads one definition. -/
def readDefinition (options : Options) (tree : Json) : Traced DefinitionError Definition :=
  match tree with
  | .object [] => (readSchema options []).andThen fun schema => pure (.schema schema)
  | .object ((key, body) :: entries) =>
    if announcesEnum key then
      (readEnumTable key body).andThen fun table =>
        (skipFurtherKeys options (enumContext table.name) entries).andThen fun _ =>
          pure (.enumTable table)
    else
      (readSchema options ((key, body) :: entries)).andThen fun schema =>
        pure (.schema schema)
  | other => .fail (unexpected "definition list" "object" other)

/-- The tree of a document, whose comments are removed first where they are allowed. -/
def readTree (options : Options) (source : String) : Except DefinitionError Json :=
  match Json.ofText? (if options.allowComments then Comments.strip source else source) with
  | some tree => .ok tree
  | none => .error .malformed

/-- Reads the definitions of a document, in order. -/
def readDocument (options : Options) (source : String) :
    Traced DefinitionError (List Definition) :=
  (Traced.ofResult (readTree options source)).andThen fun tree =>
    match tree with
    | .array items => Traced.traverse (readDefinition options) items
    | .object entries =>
      (readDefinition options (.object entries)).andThen fun definition => pure [definition]
    | other => .fail (unexpected "definition document" "array or object" other)

end Definition

end Tabula
