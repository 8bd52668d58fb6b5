import Tabula.Text.Digit
import Tabula.Value.Error

/-!
# Refused schemas

The ways in which a schema can be refused.
-/

namespace Tabula

/-- Why a schema, or a change to one, is refused. -/
inductive SchemaError where
  /-- Another field of the schema has the name. -/
  | duplicateField (schema field : String)
  /-- The position lies beyond the end of the schema. -/
  | indexOutOfRange (schema : String) (index size : Nat)
  /-- A fallback does not become a value of its field's kind. -/
  | invalidFallback (field literal : String) (refusal : ValueError)
  /-- The schema has fields that are not flat. -/
  | notFlat (schema : String)
  /-- A counter fills a column that is not of an integer kind. -/
  | invalidAutoIncrement (schema field : String) (kind : Kind)
  deriving DecidableEq

/-- The wording of a refusal. -/
def SchemaError.message : SchemaError → String
  | duplicateField schema field => s!"field '{field}' is already defined in schema '{schema}'"
  | indexOutOfRange schema index size =>
    let place := Text.naturalText index
    let length := Text.naturalText size
    s!"index {place} is out of range for schema '{schema}' with {length} field(s)"
  | invalidFallback field literal refusal =>
    let cause := refusal.message
    s!"invalid default value '{literal}' for field '{field}': {cause}"
  | notFlat schema => s!"schema '{schema}' is not flat"
  | invalidAutoIncrement schema field kind =>
    s!"field '{field}' of schema '{schema}' is auto-increment but has kind {kind.name}"

end Tabula
