import Tabula.Schema.Error
import Tabula.Schema.Index
import Tabula.Traced

/-!
# What a schema stores

A schema stores its fields in order and, beside them, the positions of the fields, filed under
field, group and composite-key names.  Every question about a name is answered from what is
filed, so whatever changes the fields files all of them anew.

The stored data are sound when the names of the fields differ and when what is filed is what one
pass over the fields files.  Nothing but the changes themselves sees to it.
-/

namespace Tabula

/-- Fields, and what is filed of them. -/
structure FiledFields where
  fields : List Field := []
  /-- Where the fields stand. -/
  index : SchemaIndex := .empty

/-- What a schema stores. -/
structure SchemaData extends FiledFields where
  name : String
  description : String := ""
  /-- The schema is meant to be inlined into others. -/
  embed : Bool := false
  /-- The names of the tables that hold its rows. -/
  partials : NameSet := .empty

namespace SchemaData

/-! ## Questions -/

/-- The position of the field with the given name. -/
def position? (data : SchemaData) (name : String) : Option Nat :=
  data.index.positions.find? (.of name)

/-- The field with the given name. -/
def field? (data : SchemaData) (name : String) : Option Field :=
  (data.position? name).bind (data.fields[·]?)

/-- There is a field with the given name. -/
def hasField (data : SchemaData) (name : String) : Bool :=
  (data.position? name).isSome

/-- The positions filed under a name. -/
def filedPositions (filed : Registry (List Nat)) (name : String) : List Nat :=
  (filed.find? (.of name)).getD []

/-- The fields at the positions filed under a name. -/
def filedFields (data : SchemaData) (filed : Registry (List Nat)) (name : String) :
    List Field :=
  (filedPositions filed name).filterMap (data.fields[·]?)

/-- The fields of a group, in order. -/
def group (data : SchemaData) (name : String) : List Field :=
  data.filedFields data.index.groups name

/-- The fields of a composite key, in order. -/
def compositeKey (data : SchemaData) (name : String) : List Field :=
  data.filedFields data.index.keys name

/-- The names of all groups. -/
def groupNames (data : SchemaData) : NameSet :=
  .ofList (data.fields.flatMap (·.head.groups.names))

/-- The names of all composite keys. -/
def compositeKeyNames (data : SchemaData) : NameSet :=
  .ofList (data.fields.flatMap (·.head.keys.names))

/-! ## Changes -/

/-- The data of a schema of the given name without fields. -/
def named (name : String) : SchemaData :=
  { name }

/-- Everything but the fields and what is filed of them. -/
def emptyLike (data : SchemaData) : SchemaData :=
  { data with fields := [], index := .empty }

/-- Files all fields anew. -/
def reindex (data : SchemaData) : SchemaData :=
  { data with index := .ofFields data.fields }

/-- Puts a field between the first fields and the rest. -/
def insertField (data : SchemaData) (position : Nat) (field : Field) : SchemaData :=
  { data with
    fields := data.fields.take position ++ field :: data.fields.drop position }.reindex

/-- Adds a field at a position, which moves later fields on. -/
def addFieldAt (data : SchemaData) (position : Nat) (field : Field) :
    Step SchemaData SchemaError Unit :=
  if data.fields.length < position then
    ⟨data, [], .error (.indexOutOfRange data.name position data.fields.length)⟩
  else if data.hasField field.name then
    ⟨data, [], .error (.duplicateField data.name field.name)⟩
  else ⟨data.insertField position field, [], .ok ()⟩

/-- Adds a field at the end. -/
def addField (data : SchemaData) (field : Field) : Step SchemaData SchemaError Unit :=
  data.addFieldAt data.fields.length field

/-- Adds fields at the end, one after another, until one is refused. -/
def addFields (data : SchemaData) : List Field → Step SchemaData SchemaError Unit
  | [] => ⟨data, [], .ok ()⟩
  | field :: fields =>
    let added := data.addField field
    match added.result with
    | .ok () => added.state.addFields fields
    | .error refusal => ⟨added.state, [], .error refusal⟩

/-- Makes the data of a schema of a name and a list of fields. -/
def ofFields (name : String) (fields : List Field) : Step SchemaData SchemaError Unit :=
  (named name).addFields fields

/-- Swaps the field at a position, if there is one, for another. -/
def replaceField (data : SchemaData) (position : Nat) (field : Field) : SchemaData :=
  if position < data.fields.length then
    { data with fields := data.fields.set position field }.reindex
  else data

/-- Adds the name of a partial table. -/
def addPartial (data : SchemaData) (name : String) : SchemaData :=
  { data with partials := data.partials.insert name }

/-! ## Sound data -/

/-- The names differ, and what is filed are the fields as they stand. -/
structure Sound (data : SchemaData) : Prop where
  distinct : (data.fields.map (NameKey.of ·.name)).Nodup
  indexed : data.index = .ofFields data.fields

/-- The field has the name of the one that it would replace. -/
def KeepsName (data : SchemaData) (position : Nat) (field : Field) : Prop :=
  ∀ old ∈ data.fields[position]?, NameKey.of field.name = NameKey.of old.name

instance (data : SchemaData) (position : Nat) (field : Field) :
    Decidable (data.KeepsName position field) :=
  inferInstanceAs (Decidable (∀ old ∈ data.fields[position]?, _))

theorem sound_named (name : String) : (named name).Sound :=
  ⟨List.nodup_nil, rfl⟩

theorem sound_emptyLike (data : SchemaData) : data.emptyLike.Sound :=
  ⟨List.nodup_nil, rfl⟩

namespace Sound

variable {data : SchemaData}

theorem hasField_iff (sound : data.Sound) (name : String) :
    data.hasField name = true ↔ NameKey.of name ∈ data.fields.map (NameKey.of ·.name) := by
  rw [hasField, position?, sound.indexed, ← SchemaIndex.contains_ofFields]
  rfl

theorem addPartial (sound : data.Sound) (name : String) : (data.addPartial name).Sound :=
  ⟨sound.distinct, sound.indexed⟩

theorem insertField (sound : data.Sound) (position : Nat) {field : Field}
    (fresh : data.hasField field.name = false) : (data.insertField position field).Sound := by
  refine ⟨?_, rfl⟩
  have moved : (data.fields.take position ++ field :: data.fields.drop position).Perm
      (field :: data.fields) := by
    conv => rhs; rw [← List.take_append_drop position data.fields]
    exact List.perm_middle
  rw [SchemaData.insertField, reindex, (moved.map _).nodup_iff, List.map_cons, List.nodup_cons,
    ← sound.hasField_iff]
  exact ⟨Bool.eq_false_iff.mp fresh, sound.distinct⟩

theorem addFieldAt (sound : data.Sound) (position : Nat) (field : Field) :
    (data.addFieldAt position field).state.Sound := by
  unfold SchemaData.addFieldAt
  split
  · exact sound
  · split
    · exact sound
    · rename_i fresh
      exact sound.insertField position (Bool.eq_false_iff.mpr fresh)

theorem addFields (sound : data.Sound) (fields : List Field) :
    (data.addFields fields).state.Sound := by
  induction fields generalizing data with
  | nil => exact sound
  | cons field fields inductionHypothesis =>
      have added := sound.addFieldAt data.fields.length field
      rw [SchemaData.addFields]
      split
      · exact inductionHypothesis added
      · exact added

theorem replaceField (sound : data.Sound) {position : Nat} {field : Field}
    (keepsName : data.KeepsName position field) : (data.replaceField position field).Sound := by
  unfold SchemaData.replaceField
  split
  · rename_i inside
    refine ⟨?_, rfl⟩
    have among : position < (data.fields.map (NameKey.of ·.name)).length := by
      rwa [List.length_map]
    have name : (data.fields.map (NameKey.of ·.name))[position] = NameKey.of field.name := by
      rw [List.getElem_map]
      exact (keepsName _ (List.getElem?_eq_getElem inside)).symm
    rw [reindex, List.map_set, ← name, List.set_getElem_self]
    exact sound.distinct
  · exact sound

end Sound

end SchemaData

end Tabula
