import Tabula.Linkage
import Tabula.Linkage.Unvisited

/-!
# Related schemas and tables

A schema relates to another when it embeds it or looks it up, itself, through the
elements of a list, or through a schema that it embeds.  The search enters each schema
at most once: what a schema leads to does not depend on how it was reached.
-/

namespace Tabula

namespace Linkage

/-- The schema that a field, or the innermost element of a list, embeds. -/
def embeddedTarget? : Field → Option String
  | .single head => head.shape.target?
  | .withElement head element =>
    match head.shape with
    | .list _ => embeddedTarget? element
    | shape => shape.target?

/-- The schemas that come first among those of the same name. -/
def firstOfNames (seen : List NameKey) : List Schema → List Schema
  | [] => []
  | schema :: schemas =>
    let key := NameKey.of schema.name
    if key ∈ seen then firstOfNames seen schemas
    else schema :: firstOfNames (key :: seen) schemas

/-- The schemas that a schema embeds, itself or as elements of its lists. -/
def relatedSchemas (linkage : Linkage) (schema : Schema) : List Schema :=
  firstOfNames []
    (schema.fields.filterMap fun field => (embeddedTarget? field).bind linkage.schema?)

/-- Tests members of a list from left to right until one passes, handing a state on. -/
def anyFrom {σ α : Type} (test : σ → α → Bool × σ) (state : σ) : List α → Bool × σ
  | [] => (false, state)
  | member :: members =>
    match test state member with
    | (true, next) => (true, next)
    | (false, next) => anyFrom test next members

/-- The head of a field leads to the wanted schema.  `enter` searches a schema, and the
list holds the schemas not yet entered. -/
def headRelates (enter : NameKey → List NameKey → Bool × List NameKey) (wanted : NameKey)
    (closed : List NameKey) (head : FieldHead) : Bool × List NameKey :=
  match head.shape with
  | .embedded none => (false, closed)
  | .embedded (some target) =>
    let key := NameKey.of target
    if key = wanted then (true, closed) else enter key closed
  | .list _ => (false, closed)
  | shape =>
    (match shape.reference? with
      | some reference => NameKey.of reference.table = wanted
      | none => false, closed)

/-- The field, or an element of a list, leads to the wanted schema. -/
def fieldRelates (enter : NameKey → List NameKey → Bool × List NameKey) (wanted : NameKey)
    (closed : List NameKey) : Field → Bool × List NameKey
  | .single head => headRelates enter wanted closed head
  | .withElement head element =>
    match head.shape with
    | .list _ => fieldRelates enter wanted closed element
    | _ => headRelates enter wanted closed head

/-- A schema not yet entered leads to the wanted one.  Each entered schema leaves one
fewer to enter, so the depth need not exceed their number. -/
def schemaRelates (linkage : Linkage) (wanted : NameKey) :
    Nat → NameKey → List NameKey → Bool × List NameKey
  | 0, _, closed => (false, closed)
  | depth + 1, key, closed =>
    match linkage.schemas.find? key with
    | none => (false, closed)
    | some schema =>
      if key ∈ closed then
        anyFrom (fieldRelates (linkage.schemaRelates wanted depth) wanted)
          (without closed key) schema.fields
      else (false, closed)

/-- The schema embeds or looks up the wanted one, directly or through others. -/
def relatesTo (linkage : Linkage) (wanted : NameKey) (schema : Schema) : Bool :=
  let keys := linkage.schemas.keys
  (anyFrom (fieldRelates (linkage.schemaRelates wanted keys.length) wanted) keys
    schema.fields).1

/-- The partial tables of the schemas that embed or look up the schema of the given
name. -/
def relatedPartialTables (linkage : Linkage) (name : String) : List Table :=
  (linkage.schemas.entries.filter fun (_, schema) => linkage.relatesTo (.of name) schema).flatMap
    fun (key, _) => linkage.partialTablesAt key

end Linkage

end Tabula
