import Tabula.Schema

/-!
# Flat schemas

Only a flat schema may stand behind a table: all its fields hold one value, and only
whole-number columns are filled from counters.
-/

namespace Tabula

/-- A schema whose rows can be stored. -/
structure FlatSchema where
  schema : Schema
  flat : schema.isFlat = true
  counted : ∀ field ∈ schema.fields,
    field.head.autoIncrement = true → field.kind.isInteger = true

namespace FlatSchema

/-- The field is filled from a counter although it holds no whole numbers. -/
def miscounted (field : Field) : Bool :=
  field.head.autoIncrement && !field.kind.isInteger

/-- The schema as a flat one. -/
def ofSchema (schema : Schema) : Except SchemaError FlatSchema :=
  if flat : schema.isFlat = true then
    match found : schema.fields.find? miscounted with
    | some field =>
      .error (.invalidAutoIncrement schema.name field.name field.kind)
    | none =>
      .ok ⟨schema, flat, by
        intro field member automatic
        have fine := List.find?_eq_none.1 found field member
        simpa [miscounted, automatic] using fine⟩
  else .error (.notFlat schema.name)

/-- The fields in order. -/
def fields (flat : FlatSchema) : List Field :=
  flat.schema.fields

/-- What is accepted is kept as it is. -/
theorem schema_of_ofSchema {schema : Schema} {flat : FlatSchema}
    (accepted : ofSchema schema = .ok flat) : flat.schema = schema := by
  unfold ofSchema at accepted
  split at accepted
  · split at accepted
    · cases accepted
    · cases accepted
      rfl
  · cases accepted

/-- A flat schema is accepted as it is. -/
theorem ofSchema_schema (flat : FlatSchema) :
    ofSchema flat.schema = .ok flat := by
  have counted : flat.schema.fields.find? miscounted = none := by
    rw [List.find?_eq_none]
    intro field member
    have fine := flat.counted field member
    cases automatic : field.head.autoIncrement with
    | false => simp [miscounted, automatic]
    | true => simp [miscounted, automatic, fine automatic]
  unfold ofSchema
  rw [dif_pos flat.flat]
  split
  · rename_i found
    rw [counted] at found
    cases found
  · rfl

end FlatSchema

end Tabula
