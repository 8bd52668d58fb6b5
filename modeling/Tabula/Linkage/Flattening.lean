import Tabula.Linkage.LookupChain

/-!
# Flattening schemas

A flat schema has one column for every leaf of a schema.  An embedded field stands for
the fields of its target, under its own name, a point and theirs; a list stands for its
elements, under its own name and their number in brackets; a lookup takes the kind of
its key.  Below a list, and below an embedded field that may be empty, every column may
be empty and has no fallback.

Embedding is followed through schemas that are not yet open on the way.  There are
finitely many of them, and one that is met again closes a cycle.
-/

namespace Tabula

namespace Linkage

/-- The column of a scalar field; a lookup has to pick a single value. -/
def scalarColumn (field : Field) (reference : Option Reference) :
    Except LinkError (List Field) :=
  match reference with
  | none => .ok [field]
  | some reference =>
    match reference.pickedKind with
    | some (.scalar _) => .ok [field]
    | none => .ok [field]
    | some kind =>
      .error (.nonScalarLookup field.name reference.table reference.pickedField kind)

/-- A column of an embedded schema, under the name of the field that embeds it. -/
def embeddedColumn (name : String) (optional : Bool) (column : Field) : Field :=
  let renamed := column.renamed s!"{name}.{column.name}"
  if optional then renamed.makeOptional else renamed

/-- The name of an element of a list. -/
def elementName (name : String) (position : Nat) : String :=
  let number := Text.naturalText position
  s!"{name}[{number}]"

/-- The columns of a field that is not made of elements.  `inline` gives the columns of
the schema that a field of the given name embeds. -/
def headColumns (linkage : Linkage) (inline : String → String → Except LinkError (List Field))
    (field : Field) : Except LinkError (List Field) :=
  match field.head.shape with
  | .unresolved => .error (.unresolved field.name field.head.typeText)
  | .embedded target => do
    let columns ← inline field.name (target.getD "")
    return columns.map (embeddedColumn field.name field.head.nullable)
  | .list _ => .ok []
  | .lookup reference => do
    let settled ← linkage.settleLookup field reference
    return [settled]
  | .scalar _ reference => scalarColumn field reference

/-- The columns of a field that goes by the given name. -/
def fieldColumns (linkage : Linkage)
    (inline : String → String → Except LinkError (List Field)) (name : String) :
    Field → Except LinkError (List Field)
  | .single head => linkage.headColumns inline ((Field.single head).renamed name)
  | .withElement head element =>
    match head.shape with
    | .list count => do
      let columns ← (List.range count).mapM fun position =>
        linkage.fieldColumns inline (elementName name position) element
      return columns.flatten.map Field.makeOptional
    | _ => linkage.headColumns inline ((Field.withElement head element).renamed name)

/-- The columns of a list of fields.  `path` holds the schemas on the way, and `closed`
those that may still be entered. -/
def columns (linkage : Linkage) (path closed : List NameKey) (fields : List Field) :
    Except LinkError (List Field) := do
  let inline (name target : String) : Except LinkError (List Field) :=
    match linkage.schema? target with
    | none => .error (.schemaNotFound target name)
    | some schema =>
      let key := NameKey.of schema.name
      if _fresh : key ∈ closed then
        linkage.columns (path ++ [key]) (without closed key) schema.fields
      else .error (.cycle schema.name (path ++ [key]))
  let columns ← fields.mapM fun field => linkage.fieldColumns inline field.name field
  return columns.flatten
termination_by closed.length
decreasing_by exact length_without_lt (by assumption)

/-- The flat form of a schema; a schema that is flat already is kept as it is. -/
def flatten (linkage : Linkage) (schema : Schema) : Except LinkError FlatSchema :=
  if schema.isFlat then (FlatSchema.ofSchema schema).mapError .refusedSchema
  else do
    let root := NameKey.of schema.name
    let columns ←
      linkage.columns [root] (without linkage.schemas.keys root) schema.fields
    let flat ← (schema.emptyLike.addFields columns).mapError .refusedSchema
    (FlatSchema.ofSchema flat).mapError .refusedSchema

/-- The flat form of the registered schema of the given name. -/
def flatSchema (linkage : Linkage) (name : String) : Except LinkError FlatSchema :=
  match linkage.schema? name with
  | none => .error (.unknownSchema name)
  | some schema => linkage.flatten schema

end Linkage

end Tabula
