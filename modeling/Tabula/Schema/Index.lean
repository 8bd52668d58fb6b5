import Tabula.Field
import Tabula.Registry

/-!
# The index of a list of fields

Fields are found by name, by group and by composite key, all without regard to case.
The index files the position of every field under its own name and under the names of
its groups and keys, in one pass over the fields.
-/

namespace Tabula

/-- Positions of fields, filed under field, group and composite-key names. -/
structure SchemaIndex where
  positions : Registry Nat
  groups : Registry (List Nat)
  keys : Registry (List Nat)

namespace SchemaIndex

/-- The index of no fields. -/
def empty : SchemaIndex :=
  ⟨.empty, .empty, .empty⟩

/-- Adds a position to those filed under a key. -/
def append (filed : Registry (List Nat)) (position : Nat) (key : NameKey) :
    Registry (List Nat) :=
  filed.insert key ((filed.find? key).getD [] ++ [position])

/-- Files one field at its position. -/
def file (index : SchemaIndex) (position : Nat) (field : Field) : SchemaIndex where
  positions := index.positions.insert (.of field.name) position
  groups :=
    (field.head.groups.names.map NameKey.of).foldl (append · position) index.groups
  keys := (field.head.keys.names.map NameKey.of).foldl (append · position) index.keys

/-- Files fields at positions from a start on. -/
def fileAll (index : SchemaIndex) : Nat → List Field → SchemaIndex
  | _, [] => index
  | position, field :: fields => (index.file position field).fileAll (position + 1) fields

/-- The index of a list of fields. -/
def ofFields (fields : List Field) : SchemaIndex :=
  empty.fileAll 0 fields

/-- The filed names are those that were there before and those of the new fields. -/
theorem contains_fileAll (index : SchemaIndex) (start : Nat) (fields : List Field)
    (key : NameKey) :
    (index.fileAll start fields).positions.contains key = true ↔
      index.positions.contains key = true ∨ key ∈ fields.map (NameKey.of ·.name) := by
  induction fields generalizing index start with
  | nil => simp [fileAll]
  | cons field fields inductionHypothesis =>
      rw [fileAll, inductionHypothesis, List.map_cons, List.mem_cons]
      simp only [file, Registry.contains, Registry.find?_insert]
      by_cases same : NameKey.of field.name = key
      · simp [same]
      · simp [same, Ne.symm same]

/-- The index of a list of fields knows exactly their names. -/
theorem contains_ofFields (fields : List Field) (key : NameKey) :
    (ofFields fields).positions.contains key = true ↔
      key ∈ fields.map (NameKey.of ·.name) := by
  rw [ofFields, contains_fileAll]
  simp [empty, Registry.contains]

end SchemaIndex

end Tabula
