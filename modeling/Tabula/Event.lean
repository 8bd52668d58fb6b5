import Tabula.Kind

/-!
# Events

What happens on the way is recorded as events, each with a level and a wording.  An
operation that fails still leaves the events that came before the failure.
-/

namespace Tabula

/-- How much attention an event asks for. -/
inductive Level where
  | debug
  | info
  | warning
  deriving DecidableEq

/-- Something that happened on the way to a result. -/
inductive Event where
  /-- A key of a definition was not recognised and skipped. -/
  | skippedKey (key context : String)
  /-- An enum was read. -/
  | enumRead (name : String) (entries : Nat) (kind : Kind)
  /-- The rows of one table were appended to another. -/
  | rowsMerged (rows : Nat) (source target : String)
  /-- A batch failed and its rows were taken back. -/
  | rowsRolledBack (rows : Nat) (table : String)
  /-- One pass over the waiting fields settled some of them. -/
  | passSettled (pass fields : Nat)
  /-- A document was read. -/
  | documentRead (schemas enums : Nat)
  /-- A document was read, but some type names mean nothing yet. -/
  | leftUnresolved (fields : Nat)
  /-- The partial tables of a schema became one table. -/
  | partialsMerged (partials : Nat) (schema : String) (rows : Nat)
  /-- Schemas and tables were linked. -/
  | linked (schemas tables merged : Nat)
  deriving DecidableEq

namespace Event

/-- The level of an event. -/
def level : Event → Level
  | skippedKey .. => .warning
  | enumRead .. => .debug
  | rowsMerged .. => .debug
  | rowsRolledBack .. => .debug
  | passSettled .. => .debug
  | documentRead .. => .info
  | leftUnresolved .. => .warning
  | partialsMerged .. => .debug
  | linked .. => .info

/-- The wording of an event. -/
def message : Event → String
  | skippedKey key context => s!"Skipping unknown key '{key}' in {context}"
  | enumRead name entries kind =>
    let size := Text.naturalText entries
    s!"Read enum '{name}' with {size} entries stored as {kind.name}"
  | rowsMerged rows source target =>
    let size := Text.naturalText rows
    s!"Merged {size} row(s) from '{source}' into '{target}'"
  | rowsRolledBack rows table =>
    let size := Text.naturalText rows
    s!"Rolled back {size} row(s) in table '{table}'"
  | passSettled pass fields =>
    let number := Text.naturalText pass
    let size := Text.naturalText fields
    s!"Weave pass {number} settled {size} field(s)"
  | documentRead schemas enums =>
    let schemaCount := Text.naturalText schemas
    let enumCount := Text.naturalText enums
    s!"Parsed definition file with {schemaCount} schema(s) and {enumCount} enum table(s)"
  | leftUnresolved fields =>
    let size := Text.naturalText fields
    s!"Definition file still has {size} unresolved field(s)"
  | partialsMerged partials schema rows =>
    let partialCount := Text.naturalText partials
    let rowCount := Text.naturalText rows
    s!"Merged {partialCount} partial table(s) of '{schema}' into {rowCount} row(s)"
  | linked schemas tables merged =>
    let schemaCount := Text.naturalText schemas
    let tableCount := Text.naturalText tables
    let mergedCount := Text.naturalText merged
    s!"Linked {schemaCount} schema(s) and {tableCount} table(s) into {mergedCount} merged table(s)"

end Event

end Tabula
