import Tabula.Catalog
import Tabula.Definition.EnumTable

/-!
# Settling waiting fields

A field may name a definition that comes later.  Settling looks its name up again: the
name of a schema makes the field inline that schema, the name of an enum makes it a
lookup of an entry, and a written lookup takes the kind of its key field once that is
known to be scalar.

One pass looks at every waiting schema against an unchanged catalog and then puts the
settled fields in place.  Passes go on until one settles nothing.  Each settled field
leaves one head less that waits, so as many passes are enough as heads wait at the
start.
-/

namespace Tabula

namespace Catalog

/-- The refusal of a fallback by the kind that its field settles to. -/
def fallbackRefusal (schema : String) (field : Field) (refusal : ValueError) :
    DefinitionError :=
  .settledFallback schema field.name field.fallbackText refusal

/-- The lookup of an entry of an enum, and the kind of its key. -/
def enumReference (table : Table) : Reference × ScalarKind :=
  let keyKind :=
    match (table.schema.field? Definition.enumNameField).map Field.kind with
    | some (.scalar kind) => kind
    | _ => .text
  ({ table := table.name
     keyField := Definition.enumNameField
     pickedField := Definition.enumValueField
     pickedKind := (table.schema.field? Definition.enumValueField).map Field.kind }, keyKind)

/-- Settles a field whose type is the name of a definition. -/
def settleCandidate (catalog : Catalog) (schema : String) (field : Field) :
    Except DefinitionError (Option Field) :=
  match catalog.meaning? field.head.typeText with
  | none => .ok none
  | some (.schema _) =>
    match catalog.schema? field.head.typeText with
    | none => .ok none
    | some target => .ok (some (field.settleEmbedded target.name))
  | some (.enumTable _) =>
    match catalog.enumTable? field.head.typeText with
    | none => .ok none
    | some table =>
      let (reference, keyKind) := enumReference table
      ((field.settleLookup reference keyKind).mapError (fallbackRefusal schema field)).map
        some

/-- Settles a written lookup, once its key is scalar and its picked field waits for
nothing. -/
def settleReference (catalog : Catalog) (schema : String) (field : Field)
    (reference : Reference) : Except DefinitionError (Option Field) :=
  match catalog.rowSchema? reference.table with
  | none => .ok none
  | some target =>
    match target.field? reference.keyField, target.field? reference.pickedField with
    | some key, some picked =>
      match key.kind with
      | .scalar keyKind =>
        if picked.kind.isPending then .ok none
        else
          let settled := { reference with pickedKind := some picked.kind }
          ((field.settleLookup settled keyKind).mapError
            (fallbackRefusal schema field)).map some
      | _ => .ok none
    | _, _ => .ok none

/-- Settles the head of a field, if what it waits for is there. -/
def settleHead (catalog : Catalog) (schema : String) (field : Field) :
    Except DefinitionError (Option Field) :=
  match field.head.shape with
  | .unresolved => catalog.settleCandidate schema field
  | .lookup (some reference) => catalog.settleReference schema field reference
  | _ => .ok none

/-- Settles a field, if what it waits for is there.  A list settles with its elements. -/
def settleField (catalog : Catalog) (schema : String) :
    Field → Except DefinitionError (Option Field)
  | .single head => catalog.settleHead schema (.single head)
  | .withElement head element =>
    match head.shape with
    | .list _ =>
      match settleField catalog schema element with
      | .error refusal => .error refusal
      | .ok none => .ok none
      | .ok (some settled) =>
        let field := Field.withElement head element
        ((field.setElement settled).mapError (fallbackRefusal schema field)).map some
    | _ => catalog.settleHead schema (.withElement head element)

/-- A settled field and its place. -/
structure Settlement where
  schema : Nat
  field : Nat
  settled : Field

/-- The settlements of fields at positions from a start on. -/
def settleFields (catalog : Catalog) (name : String) (schema : Nat) :
    Nat → List Field → Except DefinitionError (List Settlement)
  | _, [] => .ok []
  | position, field :: fields => do
    let here ← catalog.settleField name field
    let further ← settleFields catalog name schema (position + 1) fields
    match here with
    | none => return further
    | some settled => return ⟨schema, position, settled⟩ :: further

/-- The settlements of the schemas at the given positions. -/
def settleSchemas (catalog : Catalog) : List Nat → Except DefinitionError (List Settlement)
  | [] => .ok []
  | position :: positions =>
    match catalog.schemas[position]? with
    | none => settleSchemas catalog positions
    | some schema => do
      let here ← catalog.settleFields schema.name position 0 schema.fields
      let further ← settleSchemas catalog positions
      return here ++ further

/-- The schema with the settled field in its place, under the name that it has there.  Settling
keeps names, so every settlement of a pass goes in. -/
def Settlement.placeIn (settlement : Settlement) (schema : Schema) : Schema :=
  if keepsName : schema.KeepsName settlement.field settlement.settled then
    schema.replaceField settlement.field settlement.settled keepsName
  else schema

/-- Puts a settled field in its place. -/
def place (catalog : Catalog) (settlement : Settlement) : Catalog :=
  { catalog with
    schemas := catalog.schemas.modify settlement.schema settlement.placeIn }

/-- The schema at the position holds a waiting field. -/
def isPendingAt (catalog : Catalog) (position : Nat) : Bool :=
  match catalog.schemas[position]? with
  | some schema => schema.isPending
  | none => false

/-- Puts settled fields in their places and drops the schemas that wait no more. -/
def placeAll (catalog : Catalog) (settlements : List Settlement) : Catalog :=
  let placed := settlements.foldl place catalog
  { placed with pending := placed.pending.filter placed.isPendingAt }

/-- Passes until one settles nothing, at most as many as the budget allows.  `pass` and
`settled` count the passes and fields so far. -/
def settleWithin (catalog : Catalog) : Nat → Nat → Nat → Step Catalog DefinitionError Nat
  | 0, _, settled => ⟨catalog, [], .ok settled⟩
  | budget + 1, pass, settled =>
    match catalog.settleSchemas catalog.pending with
    | .error refusal => ⟨catalog, [], .error refusal⟩
    | .ok [] => ⟨catalog, [], .ok settled⟩
    | .ok (first :: others) =>
      let count := others.length + 1
      let step :=
        (catalog.placeAll (first :: others)).settleWithin budget (pass + 1) (settled + count)
      { step with events := .passSettled (pass + 1) count :: step.events }

/-- Settles what can be settled and counts the settled fields. -/
def settle (catalog : Catalog) : Step Catalog DefinitionError Nat :=
  catalog.settleWithin catalog.pendingCount 0 0

end Catalog

end Tabula
