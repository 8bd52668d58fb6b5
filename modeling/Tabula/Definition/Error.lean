import Tabula.Schema.Error
import Tabula.Table.Error

/-!
# Refused definitions

The ways in which a document, or an addition to a catalog, can be refused.
-/

namespace Tabula

/-- Why a definition is refused. -/
inductive DefinitionError where
  /-- The document is not JSON. -/
  | malformed
  /-- A tree has the wrong shape for its place. -/
  | unexpectedShape (context expected found : String)
  /-- A name breaks the rules of its role. -/
  | disallowedName (name role : String)
  /-- A name is declared twice where it has to be unique. -/
  | duplicate (name role : String)
  /-- A schema has no name. -/
  | missingName
  /-- A type is not well written. -/
  | invalidType (field written : String)
  /-- A header of an enum is not well written. -/
  | invalidEnumHeader (header : String)
  /-- An enum declares a kind that holds no whole numbers. -/
  | invalidEnumKind (name : String) (kind : Kind)
  /-- A line of an enum is not well written. -/
  | invalidEnumLine (name line : String)
  /-- An enum has a negative value. -/
  | negativeEnumValue (name : String) (value : Int)
  /-- The largest value of an enum does not fit its kind. -/
  | enumOutOfRange (name : String) (value : Int) (kind : Kind)
  /-- A fallback does not become a value of its field's kind. -/
  | invalidFallback (field literal : String) (refusal : ValueError)
  /-- A fallback does not become a value of the kind that settling gives its field. -/
  | settledFallback (schema field literal : String) (refusal : ValueError)
  /-- A key means nothing and unknown keys are refused. -/
  | unknownKey (key context : String)
  /-- The type of a field names nothing. -/
  | unresolved (schema field candidate : String)
  /-- A schema is refused. -/
  | refusedSchema (refusal : SchemaError)
  /-- A table is refused. -/
  | refusedTable (refusal : TableError)
  deriving DecidableEq

/-- The wording of a refusal. -/
def DefinitionError.message : DefinitionError → String
  | malformed => "JSON syntax error"
  | unexpectedShape context expected found => s!"expected {expected} in {context}, found {found}"
  | disallowedName name role => s!"'{name}' is a disallowed {role}"
  | duplicate name role => s!"'{name}' is an already defined {role}"
  | missingName => "schema definition has no name"
  | invalidType field written => s!"'{written}' is an invalid type syntax for field '{field}'"
  | invalidEnumHeader header => s!"'{header}' is an invalid enum definition"
  | invalidEnumKind name kind =>
    s!"enum '{name}' declares kind {kind.name}; only integer kinds are allowed"
  | invalidEnumLine name line => s!"'{line}' is an invalid row of enum '{name}'"
  | negativeEnumValue name value =>
    let number := Text.integerText value
    s!"value {number} of enum '{name}' is negative"
  | enumOutOfRange name value kind =>
    let number := Text.integerText value
    s!"value {number} of enum '{name}' is out of range for {kind.name}"
  | invalidFallback field literal refusal =>
    let cause := refusal.message
    s!"invalid default value '{literal}' for field '{field}': {cause}"
  | settledFallback schema field literal refusal =>
    let cause := refusal.message
    s!"default '{literal}' of field '{field}' in schema '{schema}' " ++
      s!"does not fit its resolved type: {cause}"
  | unknownKey key context => s!"unknown key '{key}' in {context}"
  | unresolved schema field candidate =>
    s!"field '{field}' of schema '{schema}' references unknown type '{candidate}'"
  | refusedSchema refusal => refusal.message
  | refusedTable refusal => refusal.message

end Tabula
