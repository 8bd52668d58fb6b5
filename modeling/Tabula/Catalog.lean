import Tabula.Definition.Error
import Tabula.Field.Fallback
import Tabula.Registry
import Tabula.Table.Batch

/-!
# Catalogs

A catalog owns schemas and enum tables, whose names share one namespace without regard
to case.  Its index says for every name whether it means a schema or an enum and at
which position, and its list of pending positions says which schemas still hold a field
that waits for a definition.
-/

namespace Tabula

/-- What a name of a catalog means. -/
inductive CatalogEntry where
  | schema (position : Nat)
  | enumTable (position : Nat)
  deriving DecidableEq

/-- Schemas and enum tables in one namespace. -/
structure Catalog where
  schemas : List Schema
  enumTables : List Table
  names : Registry CatalogEntry
  /-- The positions of the schemas that hold a waiting field. -/
  pending : List Nat

/-- A field whose type names nothing known. -/
structure UnresolvedField where
  schema : String
  field : String
  candidate : String
  deriving DecidableEq

namespace Catalog

/-- The catalog without definitions. -/
def empty : Catalog :=
  ⟨[], [], .empty, []⟩

/-- What the name means. -/
def meaning? (catalog : Catalog) (name : String) : Option CatalogEntry :=
  catalog.names.find? (.of name)

/-- The name is taken. -/
def contains (catalog : Catalog) (name : String) : Bool :=
  (catalog.meaning? name).isSome

/-- The schema of the given name. -/
def schema? (catalog : Catalog) (name : String) : Option Schema :=
  match catalog.meaning? name with
  | some (.schema position) => catalog.schemas[position]?
  | _ => none

/-- The enum table of the given name. -/
def enumTable? (catalog : Catalog) (name : String) : Option Table :=
  match catalog.meaning? name with
  | some (.enumTable position) => catalog.enumTables[position]?
  | _ => none

/-- The schema of the rows that the given name stands for. -/
def rowSchema? (catalog : Catalog) (name : String) : Option Schema :=
  match catalog.meaning? name with
  | some (.schema _) => catalog.schema? name
  | some (.enumTable _) => (catalog.enumTable? name).map Table.schema
  | none => none

/-- Some schema holds a waiting field. -/
def isPending (catalog : Catalog) : Bool :=
  !catalog.pending.isEmpty

/-- Some field has a type that nothing has claimed. -/
def isUnresolved (catalog : Catalog) : Bool :=
  catalog.schemas.any Schema.isUnresolved

/-- The fields of a schema whose types name nothing known. -/
def unresolvedOf (schema : Schema) : List UnresolvedField :=
  schema.fields.filterMap fun field =>
    field.candidate?.map fun candidate => ⟨schema.name, field.name, candidate⟩

/-- The fields whose types name nothing known, in order. -/
def unresolvedFields (catalog : Catalog) : List UnresolvedField :=
  catalog.schemas.flatMap unresolvedOf

/-- Every type names something; the first that does not is the refusal. -/
def ensureResolved (catalog : Catalog) : Except DefinitionError Unit :=
  match catalog.unresolvedFields with
  | [] => .ok ()
  | missing :: _ => .error (.unresolved missing.schema missing.field missing.candidate)

/-- How many heads of the fields wait for a definition or a key field. -/
def pendingHeads : List Field → Nat
  | [] => 0
  | field :: fields => field.pendingCount + pendingHeads fields

/-- How many field heads of the catalog wait for a definition or a key field. -/
def pendingCount (catalog : Catalog) : Nat :=
  pendingHeads (catalog.schemas.flatMap (·.fields))

theorem ensureResolved_eq_ok_iff (catalog : Catalog) :
    catalog.ensureResolved = .ok () ↔ catalog.unresolvedFields = [] := by
  unfold ensureResolved
  split <;> simp_all

end Catalog

end Tabula
