import Tabula.Field.Fallback
import Tabula.Linkage
import Tabula.Linkage.Unvisited

/-!
# Chains of lookups

The key of a lookup may be a lookup itself.  Its kind is then the kind of the next key,
and so on until a scalar field is reached.  The steps of a chain are remembered by their
text, the names of the table and the field with a point between them, and a chain that
comes to a text a second time is refused.

The walk carries the texts of the fields that it has not come to yet, of which there are
finitely many; every step takes one of them away.
-/

namespace Tabula

namespace Linkage

/-- The text by which a step of a chain is remembered. -/
def stepText (table field : NameKey) : String :=
  s!"{table.text}.{field.text}"

/-- The step texts of the fields of a schema filed under a key. -/
def stepsOf (key : NameKey) (schema : Schema) : List String :=
  schema.fields.map fun field => stepText key (.of field.name)

/-- The step texts of all fields that a chain can come to. -/
def steps (linkage : Linkage) : List String :=
  linkage.schemas.entries.flatMap (fun (key, schema) => stepsOf key schema) ++
    linkage.tables.entries.flatMap (fun (key, table) => stepsOf key table.schema)

/-- The kind at the end of the chain that starts at a field of a table, for a lookup
field named `origin`. -/
def chainKind (linkage : Linkage) (origin table field : String) (unvisited : List String) :
    Except LinkError ScalarKind :=
  match linkage.rowSchema? table with
  | none => .error (.schemaNotFound table origin)
  | some schema =>
    match schema.field? field with
    | none => .error (.fieldNotFound table field)
    | some target =>
      match target.head.shape with
      | .scalar kind _ => .ok kind
      | .lookup reference =>
        let step := stepText (.of table) (.of field)
        if _fresh : step ∈ unvisited then
          match reference with
          | none => .error (.nonScalarLookup origin table field .lookup)
          | some next =>
            linkage.chainKind origin next.table next.keyField (without unvisited step)
        else .error (.nonScalarLookup origin table field .lookup)
      | shape => .error (.nonScalarLookup origin table field shape.kind)
termination_by unvisited.length
decreasing_by exact length_without_lt (by assumption)

/-- A waiting lookup with the kinds at the ends of its two chains.  Its fallback has to
become a value of the kind of its key. -/
def settleLookup (linkage : Linkage) (field : Field) (reference : Option Reference) :
    Except LinkError Field :=
  match reference with
  | none => .error (.unresolved field.name field.head.typeText)
  | some reference => do
    let keyKind ←
      linkage.chainKind field.name reference.table reference.keyField linkage.steps
    let pickedKind ←
      linkage.chainKind field.name reference.table reference.pickedField linkage.steps
    let settled := { reference with pickedKind := some (.scalar pickedKind) }
    (field.settleLookup settled keyKind).mapError fun refusal =>
      .refusedSchema (.invalidFallback field.name field.fallbackText refusal)

end Linkage

end Tabula
