import Tabula.Schema.Data

/-!
# Schemas

A schema is an ordered list of fields whose names differ without regard to case.  The
order of the fields matters and survives every operation.  What a schema stores is sound
from the start, and every operation is a step of the stored data, which leaves them sound
whether it is accepted or refused.
-/

namespace Tabula

/-- Fields with distinct names, filed as they stand. -/
structure SoundFields extends FiledFields where
  index := .ofFields fields
  distinct : (fields.map (NameKey.of ·.name)).Nodup := by simp
  indexed : index = .ofFields fields := by rfl

/-- An ordered collection of fields with distinct names. -/
structure Schema extends SoundFields, SchemaData

namespace Schema

theorem sound (schema : Schema) : schema.toSchemaData.Sound :=
  ⟨schema.distinct, schema.indexed⟩

/-- A schema is what it stores. -/
theorem eq_of_data {left right : Schema} (same : left.toSchemaData = right.toSchemaData) :
    left = right := by
  rcases left with ⟨⟨⟨_, _⟩, _, _⟩, _, _, _, _⟩
  rcases right with ⟨⟨⟨_, _⟩, _, _⟩, _, _, _, _⟩
  cases same
  rfl

/-- Sound data as a schema. -/
def ofSound (data : SchemaData) (sound : data.Sound) : Schema :=
  { data with distinct := sound.distinct, indexed := sound.indexed }

/-- The outcome of a step of stored data, as a schema. -/
def ofStep (step : Step SchemaData SchemaError Unit) (sound : step.state.Sound) :
    Except SchemaError Schema :=
  match step.result with
  | .ok () => .ok (ofSound step.state sound)
  | .error refusal => .error refusal

section

variable {step : Step SchemaData SchemaError Unit} {sound : step.state.Sound}

theorem ofStep_eq_ok_iff {result : Schema} :
    ofStep step sound = .ok result ↔
      step.result = .ok () ∧ step.state = result.toSchemaData := by
  rcases step with ⟨data, events, refusal | ⟨⟩⟩
  · simp only [ofStep, reduceCtorEq, false_and]
  · constructor
    · rintro ⟨⟩
      exact ⟨rfl, rfl⟩
    · rintro ⟨_, same⟩
      cases same
      rfl

theorem ofStep_eq_error_iff {refusal : SchemaError} :
    ofStep step sound = .error refusal ↔ step.result = .error refusal := by
  rcases step with ⟨data, events, other | ⟨⟩⟩
  · simp only [ofStep, Except.error.injEq]
  · simp only [ofStep, reduceCtorEq]

end

/-- The schema of the given name without fields. -/
def named (name : String) : Schema :=
  ofSound (.named name) (SchemaData.sound_named name)

/-- Everything of a schema but its fields. -/
def emptyLike (schema : Schema) : Schema :=
  ofSound schema.toSchemaData.emptyLike (SchemaData.sound_emptyLike _)

/-- The schema with a field at a position, which moves later fields on. -/
def addFieldAt (schema : Schema) (position : Nat) (field : Field) :
    Except SchemaError Schema :=
  ofStep (schema.toSchemaData.addFieldAt position field) (schema.sound.addFieldAt position field)

/-- The schema with a field at its end. -/
def addField (schema : Schema) (field : Field) : Except SchemaError Schema :=
  schema.addFieldAt schema.fields.length field

/-- The schema with more fields at its end. -/
def addFields (schema : Schema) (fields : List Field) : Except SchemaError Schema :=
  ofStep (schema.toSchemaData.addFields fields) (schema.sound.addFields fields)

/-- The schema of a name and a list of fields. -/
def ofFields (name : String) (fields : List Field) : Except SchemaError Schema :=
  (named name).addFields fields

/-- The schema with another field of the same name at a position. -/
def replaceField (schema : Schema) (position : Nat) (field : Field)
    (keepsName : schema.KeepsName position field) : Schema :=
  ofSound (schema.toSchemaData.replaceField position field) (schema.sound.replaceField keepsName)

/-- The schema with one more partial table. -/
def addPartial (schema : Schema) (name : String) : Schema :=
  ofSound (schema.toSchemaData.addPartial name) (schema.sound.addPartial name)

/-- Every field holds one value. -/
def isFlat (schema : Schema) : Bool :=
  schema.fields.all Field.isFlat

/-- Some field still waits for a definition or a key field. -/
def isPending (schema : Schema) : Bool :=
  schema.fields.any Field.isPending

/-- Some field has a type that nothing has claimed. -/
def isUnresolved (schema : Schema) : Bool :=
  schema.fields.any Field.isUnresolved

end Schema

end Tabula
