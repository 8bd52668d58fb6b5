import Tabula.Linkage.Error
import Tabula.Registry
import Tabula.Table

/-!
# Linkages

A linkage holds a closed set of schemas and authored tables.  Tables over the same
schema are its partial tables, and each schema that has some also has a merged table
with all their rows.  Nothing is added to a linkage once it is built.
-/

namespace Tabula

/-- Schemas and tables that know of each other. -/
structure Linkage where
  schemas : Registry Schema
  tables : Registry Table
  /-- The keys of the partial tables, filed under the keys of their schemas. -/
  partials : Registry (List NameKey)
  /-- The merged tables, filed under the keys of their schemas. -/
  merged : Registry Table

namespace Linkage

/-- The linkage of nothing. -/
def empty : Linkage :=
  ⟨.empty, .empty, .empty, .empty⟩

/-- The registered schema of the given name. -/
def schema? (linkage : Linkage) (name : String) : Option Schema :=
  linkage.schemas.find? (.of name)

/-- The authored table of the given name. -/
def table? (linkage : Linkage) (name : String) : Option Table :=
  linkage.tables.find? (.of name)

/-- The merged table of the schema of the given name. -/
def mergedTable? (linkage : Linkage) (schema : String) : Option Table :=
  linkage.merged.find? (.of schema)

/-- The partial tables filed under the key of a schema, in order of registration. -/
def partialTablesAt (linkage : Linkage) (key : NameKey) : List Table :=
  ((linkage.partials.find? key).getD []).filterMap linkage.tables.find?

/-- The partial tables of the schema of the given name, in order of registration. -/
def partialTables (linkage : Linkage) (schema : String) : List Table :=
  linkage.partialTablesAt (.of schema)

/-- The schema that a lookup by name leads to: a registered one, else that of an authored
table. -/
def rowSchema? (linkage : Linkage) (name : String) : Option Schema :=
  (linkage.schema? name).or ((linkage.table? name).map Table.schema)

/-- The field whose value a lookup field repeats. -/
def keyField? (linkage : Linkage) (field : Field) : Option Field := do
  let reference ← field.reference?
  let schema ← linkage.rowSchema? reference.table
  schema.field? reference.keyField

/-- The field that a lookup field yields. -/
def pickedField? (linkage : Linkage) (field : Field) : Option Field := do
  let reference ← field.reference?
  let schema ← linkage.rowSchema? reference.table
  schema.field? reference.pickedField

/-- Follows a lookup: the picked cell of the first row whose key equals the value.  The
rows are those of the merged table of the name, else those of the authored table. -/
def referenceValue (linkage : Linkage) (table keyField pickedField : String)
    (value : Value) : Cell := do
  let target ← (linkage.mergedTable? table).or (linkage.table? table)
  let column ← target.column? pickedField
  let row ← target.findRow? keyField value
  let cell ← row[column]?
  cell

end Linkage

end Tabula
