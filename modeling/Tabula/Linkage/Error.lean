import Tabula.Name
import Tabula.Schema.Error
import Tabula.Table.Error

/-!
# Refused links

The ways in which schemas and tables can fail to link, or a schema to become flat.
-/

namespace Tabula

/-- Why schemas and tables do not link. -/
inductive LinkError where
  /-- No schema of the name is registered. -/
  | unknownSchema (name : String)
  /-- A field refers to a schema that is not registered. -/
  | schemaNotFound (schema field : String)
  /-- A lookup names a field that its target lacks. -/
  | fieldNotFound (schema field : String)
  /-- A lookup leads to a field that holds no single value. -/
  | nonScalarLookup (field table target : String) (kind : Kind)
  /-- The type of a field names nothing. -/
  | unresolved (field typeText : String)
  /-- A schema inlines itself. -/
  | cycle (schema : String) (path : List NameKey)
  /-- Two schemas of one name differ in structure. -/
  | incompatibleSchema (name : String)
  /-- Another table has the name. -/
  | duplicateTable (name : String)
  /-- A schema is refused. -/
  | refusedSchema (refusal : SchemaError)
  /-- A table is refused. -/
  | refusedTable (refusal : TableError)
  deriving DecidableEq

/-- A path of schemas, as a message shows it. -/
def pathText (path : List NameKey) : String :=
  " -> ".intercalate (path.map (·.text))

/-- The wording of a refusal. -/
def LinkError.message : LinkError → String
  | unknownSchema name => s!"schema '{name}' is not known to the linker"
  | schemaNotFound schema field =>
    s!"schema '{schema}' referenced by field '{field}' was not found"
  | fieldNotFound schema field => s!"field '{field}' was not found in '{schema}'"
  | nonScalarLookup field table target kind =>
    s!"lookup '{field}' targets '{table}.{target}' of kind {kind.name}, which is not scalar"
  | unresolved field typeText => s!"field '{field}' has unresolved type '{typeText}'"
  | cycle schema path =>
    let shown := pathText path
    s!"schema '{schema}' embeds itself through {shown}"
  | incompatibleSchema name =>
    s!"schema '{name}' is not compatible with an existing schema of the same name"
  | duplicateTable name => s!"table '{name}' is already registered"
  | refusedSchema refusal => refusal.message
  | refusedTable refusal => refusal.message

end Tabula
