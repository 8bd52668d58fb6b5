import Tabula.Catalog
import Tabula.Linkage.Flattening

/-!
# Building linkages

Schemas are registered first, then tables; a schema that comes a second time has to be
compatible with the first, and a table brings its schema along when that is not
registered.  At last the partial tables of each schema are appended, in order of
registration, to a table over the flat form of the schema.
-/

namespace Tabula

namespace Linkage

/-- Registers a schema. -/
def registerSchema (linkage : Linkage) (schema : Schema) : Except LinkError Linkage :=
  let key := NameKey.of schema.name
  match linkage.schemas.find? key with
  | some existing =>
    if existing.compatible schema then .ok linkage
    else .error (.incompatibleSchema schema.name)
  | none => .ok { linkage with schemas := linkage.schemas.insert key schema }

/-- Registers a table as a partial table of its schema. -/
def registerTable (linkage : Linkage) (table : Table) : Except LinkError Linkage :=
  let key := NameKey.of table.name
  if linkage.tables.contains key then .error (.duplicateTable table.name)
  else do
    let schemaKey := NameKey.of table.schema.name
    let linkage ←
      if linkage.schemas.contains schemaKey then pure linkage
      else linkage.registerSchema table.schema
    let filed := (linkage.partials.find? schemaKey).getD []
    return { linkage with
      partials := linkage.partials.insert schemaKey (filed ++ [key])
      tables := linkage.tables.insert key table }

/-- Appends partial tables to a table. -/
def mergePartials (merged : Table) : List Table → Traced LinkError Table
  | [] => pure merged
  | table :: tables =>
    if merged.compatible table then
      let step := merged.merge table
      match step.result with
      | .error refusal => ⟨step.events, .error (.refusedTable refusal)⟩
      | .ok _ =>
        (⟨step.events, .ok step.state⟩ : Traced LinkError Table).andThen fun merged =>
          mergePartials merged tables
    else .fail (.incompatibleSchema table.schema.name)

/-- The merged table of a schema, from the keys of its partial tables. -/
def mergedTable (linkage : Linkage) (schema : Schema) (partials : List NameKey) :
    Traced LinkError Table := do
  let flat ← Traced.ofResult (linkage.flatten schema)
  let merged ←
    mergePartials (.ofSchema schema.name flat) (partials.filterMap linkage.tables.find?)
  Traced.record (.partialsMerged partials.length schema.name merged.rows.length)
  return merged

/-- The merged tables of the schemas that have partial tables. -/
def mergeAll (linkage : Linkage) (merged : Registry Table) :
    List (NameKey × Schema) → Traced LinkError (Registry Table)
  | [] => pure merged
  | (key, schema) :: schemas =>
    match linkage.partials.find? key with
    | none => linkage.mergeAll merged schemas
    | some partials =>
      (linkage.mergedTable schema partials).andThen fun table =>
        linkage.mergeAll (merged.insert key table) schemas

/-- Links schemas and authored tables. -/
def link (schemas : List Schema) (tables : List Table) : Traced LinkError Linkage := do
  let registered ← Traced.ofResult (schemas.foldlM registerSchema empty)
  let registered ← Traced.ofResult (tables.foldlM registerTable registered)
  let merged ← registered.mergeAll .empty registered.schemas.entries
  let linkage := { registered with merged }
  Traced.record
    (.linked linkage.schemas.size linkage.tables.size linkage.merged.size)
  return linkage

/-- Links the schemas and enum tables of a catalog with authored tables. -/
def ofCatalog (catalog : Catalog) (tables : List Table) : Traced LinkError Linkage :=
  link catalog.schemas (catalog.enumTables ++ tables)

end Linkage

end Tabula
