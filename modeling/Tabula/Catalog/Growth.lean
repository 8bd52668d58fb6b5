import Tabula.Catalog.Settling
import Tabula.Definition.Reader

/-!
# Growing catalogs

Definitions are added one by one or by taking in another catalog.  Every addition
settles the waiting fields against the grown namespace.  When that fails, or the name is
taken, the catalog is left as it was.
-/

namespace Tabula

namespace Catalog

/-- The refusal of a name that is taken. -/
def nameTaken (name : String) : DefinitionError :=
  .duplicate name "definition name"

/-- Settles a grown catalog; on failure, undoes the growth. -/
def settleGrown (grown : Catalog) (undo : Catalog → Catalog) :
    Step Catalog DefinitionError Unit :=
  let step := grown.settle
  match step.result with
  | .ok _ => ⟨step.state, step.events, .ok ()⟩
  | .error refusal => ⟨undo step.state, step.events, .error refusal⟩

/-- Adds a schema. -/
def addSchema (catalog : Catalog) (schema : Schema) : Step Catalog DefinitionError Unit :=
  if catalog.contains schema.name then ⟨catalog, [], .error (nameTaken schema.name)⟩
  else
    let position := catalog.schemas.length
    let key := NameKey.of schema.name
    let grown : Catalog :=
      { catalog with
        schemas := catalog.schemas ++ [schema]
        names := catalog.names.insert key (.schema position)
        pending := if schema.isPending then catalog.pending ++ [position] else catalog.pending }
    settleGrown grown fun reached =>
      { reached with
        schemas := catalog.schemas
        pending := catalog.pending
        names := reached.names.erase key }

/-- Adds an enum table. -/
def addEnumTable (catalog : Catalog) (table : Table) : Step Catalog DefinitionError Unit :=
  if catalog.contains table.name then ⟨catalog, [], .error (nameTaken table.name)⟩
  else
    let position := catalog.enumTables.length
    let key := NameKey.of table.name
    let grown : Catalog :=
      { catalog with
        enumTables := catalog.enumTables ++ [table]
        names := catalog.names.insert key (.enumTable position) }
    settleGrown grown fun reached =>
      { reached with
        schemas := catalog.schemas
        pending := catalog.pending
        enumTables := reached.enumTables.dropLast
        names := reached.names.erase key }

/-- Adds members of a list one after another until one is refused. -/
def addAll {α : Type} (add : Catalog → α → Step Catalog DefinitionError Unit)
    (catalog : Catalog) : List α → Step Catalog DefinitionError Unit
  | [] => ⟨catalog, [], .ok ()⟩
  | member :: members =>
    let step := add catalog member
    match step.result with
    | .error refusal => ⟨step.state, step.events, .error refusal⟩
    | .ok _ =>
      let further := addAll add step.state members
      { further with events := step.events ++ further.events }

/-- Takes in every definition of another catalog, all of them or none; enum tables come
first. -/
def absorb (catalog other : Catalog) : Step Catalog DefinitionError Unit :=
  let enums := addAll addEnumTable catalog other.enumTables
  match enums.result with
  | .error refusal => ⟨catalog, enums.events, .error refusal⟩
  | .ok _ =>
    let schemas := addAll addSchema enums.state other.schemas
    let events := enums.events ++ schemas.events
    match schemas.result with
    | .error refusal => ⟨catalog, events, .error refusal⟩
    | .ok _ => ⟨schemas.state, events, .ok ()⟩

/-- Adds a definition of either sort. -/
def addDefinition (catalog : Catalog) : Definition → Step Catalog DefinitionError Unit
  | .schema schema => catalog.addSchema schema
  | .enumTable table => catalog.addEnumTable table

/-- The events at the end of the reading of a document. -/
def readingEvents (catalog : Catalog) : List Event :=
  .documentRead catalog.schemas.length catalog.enumTables.length ::
    if catalog.isUnresolved then [.leftUnresolved catalog.unresolvedFields.length] else []

/-- The catalog of a document. -/
def read (options : Options) (source : String) : Traced DefinitionError Catalog :=
  (Definition.readDocument options source).andThen fun definitions =>
    let step := addAll addDefinition empty definitions
    match step.result with
    | .error refusal => ⟨step.events, .error refusal⟩
    | .ok _ => ⟨step.events ++ step.state.readingEvents, .ok step.state⟩

end Catalog

end Tabula
