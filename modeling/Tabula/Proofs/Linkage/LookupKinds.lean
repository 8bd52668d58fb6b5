import Tabula.Proofs.Catalog.Grounding
import Tabula.Proofs.Linkage.Embedding
import Tabula.Proofs.Linkage.Merging

/-!
# The kinds of lookup columns

A lookup is settled while its catalog grows, from the definitions that are there, or when a
schema becomes flat, by following chains through schemas and tables.  Linking keeps every
definition of the catalog under its name.  So both ways come to one result: the column has
the kind at the end of the chain of its key, and it remembers the kind at the end of the
chain of the field that it picks.
-/

namespace Tabula

namespace Linkage

/-! ## The schemas of a linkage -/

/-- Where each member brings a schema along, a name stands for the first schema that has it,
those that were there before coming first. -/
theorem find?_schemas_foldlM {α : Type} {register : Linkage → α → Except LinkError Linkage}
    (schemaOf : α → Schema)
    (brings : ∀ {linkage next member}, register linkage member = .ok next →
      next.schemas = (linkage.bringSchema (schemaOf member)).schemas)
    {members : List α} {linkage next : Linkage}
    (accepted : members.foldlM register linkage = .ok next) (key : NameKey) :
    next.schemas.find? key =
      (linkage.schemas.find? key).or
        ((members.map schemaOf).find? (NameKey.of ·.name = key)) := by
  induction members generalizing linkage with
  | nil =>
      cases accepted
      rw [List.map_nil, List.find?_nil, Option.or_none]
  | cons member members inductionHypothesis =>
      rw [List.foldlM_cons, bind_eq_ok_iff] at accepted
      rcases accepted with ⟨middle, here, further⟩
      rw [inductionHypothesis further, brings here, find?_schemas_bringSchema, Option.or_assoc]
      by_cases named : NameKey.of (schemaOf member).name = key
      · simp [named]
      · simp [named]

theorem schemas_of_registerSchema {linkage next : Linkage} {schema : Schema}
    (accepted : linkage.registerSchema schema = .ok next) :
    next.schemas = (linkage.bringSchema schema).schemas := by
  rw [(registerSchema_eq_ok_iff.mp accepted).2]

theorem schemas_of_registerTable {linkage next : Linkage} {table : Table}
    (accepted : linkage.registerTable table = .ok next) :
    next.schemas = (linkage.bringSchema table.schema).schemas := by
  rw [(registerTable_eq_ok_iff.mp accepted).2]
  rfl

/-- A name stands for the first schema of that name, those that were given coming before
those of the tables. -/
theorem find?_schemas_of_registered {schemas : List Schema} {tables : List Table}
    {base registered : Linkage} (schemasIn : schemas.foldlM registerSchema empty = .ok base)
    (tablesIn : tables.foldlM registerTable base = .ok registered) (key : NameKey) :
    registered.schemas.find? key =
      (schemas ++ tables.map Table.schema).find? (NameKey.of ·.name = key) := by
  rw [find?_schemas_foldlM Table.schema schemas_of_registerTable tablesIn,
    find?_schemas_foldlM id schemas_of_registerSchema schemasIn, List.map_id, List.find?_append]
  rfl

theorem find?_schemas_of_link {schemas : List Schema} {tables : List Table}
    {linkage : Linkage} (linked : (link schemas tables).result = .ok linkage)
    (key : NameKey) :
    linkage.schemas.find? key =
      (schemas ++ tables.map Table.schema).find? (NameKey.of ·.name = key) := by
  obtain ⟨base, registered, merged, schemasIn, tablesIn, _, rfl⟩ := link_eq_ok_iff.mp linked
  exact find?_schemas_of_registered schemasIn tablesIn key

/-! ## Linked catalogs -/

/-- The definitions of the catalog are registered under their names. -/
def Knows (linkage : Linkage) (catalog : Catalog) : Prop :=
  ∀ name definition, catalog.definition? name = some definition →
    linkage.schema? name = some definition.rows

theorem map_rows_definitions (catalog : Catalog) :
    catalog.definitions.map Definition.rows =
      catalog.enumTables.map Table.schema ++ catalog.schemas := by
  simp [Catalog.definitions, Function.comp_def, Definition.rows]

theorem name_rows {catalog : Catalog} {definition : Definition}
    (grounds : catalog.GroundsDefinition definition) :
    definition.rows.name = definition.name := by
  cases definition with
  | schema schema => rfl
  | enumTable table => exact grounds.named

/-- No two definitions stand for rows of one name. -/
theorem nodup_name_rows {catalog : Catalog} (indexed : catalog.Indexed)
    (grounded : catalog.IsGrounded) :
    ((catalog.schemas ++ catalog.enumTables.map Table.schema).map
      (NameKey.of ·.name)).Nodup := by
  have names : (catalog.definitions.map Definition.rows).map (NameKey.of ·.name) =
      catalog.definitions.map (NameKey.of ·.name) := by
    rw [List.map_map]
    apply List.map_congr_left
    intro definition member
    exact congrArg NameKey.of (name_rows (grounded definition member))
  rw [(List.perm_append_comm.map _).nodup_iff, ← map_rows_definitions, names]
  exact indexed.distinct

/-- Nothing stands before a definition of the catalog, as no two of them share a name. -/
theorem knows_of_ofCatalog {catalog : Catalog} {tables : List Table} {linkage : Linkage}
    (indexed : catalog.Indexed) (grounded : catalog.IsGrounded)
    (linked : (ofCatalog catalog tables).result = .ok linkage) : linkage.Knows catalog := by
  intro name definition found
  have member := Catalog.mem_definitions_of_definition? found
  have among : definition.rows ∈ catalog.schemas ++ catalog.enumTables.map Table.schema := by
    rw [List.perm_append_comm.mem_iff, ← map_rows_definitions]
    exact List.mem_map_of_mem member
  have first := find?_of_nodup_map (nodup_name_rows indexed grounded) among
  rw [name_rows (grounded definition member), indexed.key_of_definition? found] at first
  rw [schema?, find?_schemas_of_link linked, List.map_append, ← List.append_assoc,
    List.find?_append, first]
  rfl

/-- The rows that a name stands for in the catalog are those that a lookup leads to. -/
theorem Knows.rowSchema? {linkage : Linkage} {catalog : Catalog}
    (knows : linkage.Knows catalog) {name : String} {target : Schema}
    (rows : catalog.rowSchema? name = some target) :
    linkage.rowSchema? name = some target := by
  rw [Catalog.rowSchema?_eq_map] at rows
  rcases Option.map_eq_some_iff.mp rows with ⟨definition, found, rfl⟩
  rw [Linkage.rowSchema?, knows name definition found]
  rfl

/-- What a field that the catalog bears out embeds is one of its schemas. -/
theorem Knows.mem_schemas {linkage : Linkage} {catalog : Catalog} (knows : linkage.Knows catalog)
    {field : Field} (grounds : catalog.GroundsField field) {target : Option String}
    {schema : Schema} (shape : field.head.shape = .embedded target)
    (schemaFound : linkage.schema? (target.getD "") = some schema) :
    schema ∈ catalog.schemas := by
  have here := grounds.head
  rw [shape] at here
  cases here with
  | written written => cases written
  | embedded found =>
      cases (knows _ _ found).symm.trans schemaFound
      exact Catalog.mem_schemas_of_definition? found

/-- A schema of the catalog is found under its name. -/
theorem Knows.flatSchema_eq {linkage : Linkage} {catalog : Catalog}
    (knows : linkage.Knows catalog) (indexed : catalog.Indexed) {schema : Schema}
    (member : schema ∈ catalog.schemas) :
    linkage.flatSchema schema.name = linkage.flatten schema := by
  have registered : linkage.schema? schema.name = some schema :=
    knows _ _ (indexed.definition?_name (Catalog.schema_mem_definitions member))
  rw [flatSchema, registered]

/-! ## Chains -/

/-- A chain starts at a field of the rows that a lookup leads to. -/
theorem LeadsTo.exists_field {linkage : Linkage} {table field : String} {kind : ScalarKind}
    (leads : LeadsTo linkage table field kind) :
    ∃ schema target, linkage.rowSchema? table = some schema ∧
      schema.field? field = some target := by
  cases leads with
  | scalar schemaFound fieldFound _ => exact ⟨_, _, schemaFound, fieldFound⟩
  | lookup schemaFound fieldFound _ _ => exact ⟨_, _, schemaFound, fieldFound⟩

/-- A chain that starts at a scalar field ends there. -/
theorem LeadsTo.of_kind {linkage : Linkage} {table field : String} {schema : Schema}
    {target : Field} {kind : ScalarKind}
    (schemaFound : linkage.rowSchema? table = some schema)
    (fieldFound : schema.field? field = some target) (scalar : target.kind = .scalar kind) :
    LeadsTo linkage table field kind := by
  obtain ⟨reference, shape⟩ := Shape.exists_scalar_of_kind scalar
  exact .scalar schemaFound fieldFound shape

/-! ## Columns -/

section

variable {linkage : Linkage} {catalog : Catalog}

/-- The leaves of a field have shapes that the catalog bears out, when the field has. -/
theorem Expands.grounds (knows : linkage.Knows catalog) (grounded : catalog.IsGrounded)
    {field : Field} {leaves : List Leaf} (expands : Expands linkage field leaves)
    (grounds : catalog.GroundsField field) :
    ∀ leaf ∈ leaves, catalog.Grounds leaf.field.head.shape := by
  induction expands with
  | scalar shape =>
      rw [List.forall_mem_singleton]
      exact grounds.head
  | lookup shape =>
      rw [List.forall_mem_singleton]
      exact grounds.head
  | bareList => exact List.forall_mem_nil _
  | @list field element count leaves shape elementFound slots inductionHypothesis =>
      intro leaf member
      rcases List.mem_flatMap.mp member with ⟨position, inside, among⟩
      rcases List.mem_map.mp among with ⟨below, belowMember, rfl⟩
      exact inductionHypothesis position (List.mem_range.mp inside)
        (grounds.element elementFound) below belowMember
  | @embedded field target schema leavesOf shape schemaFound children inductionHypothesis =>
      intro leaf member
      rcases List.mem_flatMap.mp member with ⟨child, inside, among⟩
      rcases List.mem_map.mp among with ⟨below, belowMember, rfl⟩
      have among := knows.mem_schemas grounds shape schemaFound
      exact inductionHypothesis child inside (grounded.fields among child inside) below
        belowMember

/-- A reference that the catalog bears out leads to the kind of its field, and to the kind
that it remembers when that is scalar. -/
theorem leadsTo_of_grounds (knows : linkage.Knows catalog) {kind : ScalarKind}
    {reference : Reference} (grounds : catalog.Grounds (.scalar kind (some reference)))
    (picksScalar : ∀ picked, reference.pickedKind = some picked → picked.isScalar = true) :
    LeadsTo linkage reference.table reference.keyField kind ∧
      ∃ pickedKind, reference.pickedKind = some (.scalar pickedKind) ∧
        LeadsTo linkage reference.table reference.pickedField pickedKind := by
  cases grounds with
  | written written => cases written
  | reference refers =>
      rcases refers with ⟨rows, keyFound, pickedFound, scalar, kind, _⟩
      obtain ⟨pickedKind, rfl⟩ := Kind.isScalar_iff.mp (picksScalar _ rfl)
      have found := knows.rowSchema? rows
      exact ⟨.of_kind found keyFound scalar, pickedKind, rfl, .of_kind found pickedFound kind⟩

/-- However a leaf is settled, its lookup leads to its own kind and to the kind that it
remembers. -/
theorem SettlesHead.leadsTo (knows : linkage.Knows catalog) {head settled : FieldHead}
    (settles : SettlesHead linkage head settled) (grounds : catalog.Grounds head.shape)
    {reference : Reference} (looksUp : settled.shape.reference? = some reference)
    (picksScalar : ∀ picked, reference.pickedKind = some picked → picked.isScalar = true) :
    ∃ keyKind, settled.shape.kind = .scalar keyKind ∧
      LeadsTo linkage reference.table reference.keyField keyKind ∧
      ∃ pickedKind, reference.pickedKind = some (.scalar pickedKind) ∧
        LeadsTo linkage reference.table reference.pickedField pickedKind := by
  cases settles with
  | @scalar kind _ shape =>
      -- The lookup was settled while the catalog grew.
      rw [shape] at looksUp grounds ⊢
      cases looksUp
      exact ⟨kind, rfl, leadsTo_of_grounds knows grounds picksScalar⟩
  | @lookup _ keyKind pickedKind _ _ key picked =>
      -- The lookup was left waiting, and has just followed its chains.
      cases looksUp
      exact ⟨keyKind, rfl, key, pickedKind, rfl, picked⟩

theorem isScalar_of_isFlat {column : Field} (flat : column.isFlat = true)
    {reference : Reference} (looksUp : column.reference? = some reference) {picked : Kind}
    (remembers : reference.pickedKind = some picked) : picked.isScalar = true := by
  obtain ⟨kind, other, shape, picks⟩ := Field.exists_scalar_of_isFlat flat
  rw [Field.reference?, shape] at looksUp
  cases looksUp
  exact picks picked remembers

/-- A column comes from a leaf of one of the fields. -/
theorem exists_leaf_of_haveColumns {fields columns : List Field}
    (expanded : HaveColumns linkage fields columns) {column : Field} (among : column ∈ columns) :
    ∃ field ∈ fields, ∃ leaves, Expands linkage field leaves ∧ ∃ leaf ∈ leaves, ∃ settled,
      SettlesHead linkage leaf.field.head settled ∧ column.head.shape = settled.shape := by
  obtain ⟨leaves, ⟨leavesOf, expands, rfl⟩, each⟩ := expanded
  obtain ⟨position, columnAt⟩ := List.getElem?_of_mem among
  obtain ⟨⟨root, leaf⟩, leafAt, settled, settles, same⟩ :=
    exists_getElem?_of_forall₂ each.flip columnAt
  rcases List.mem_flatMap.mp (List.mem_of_getElem? leafAt) with ⟨field, inside, below⟩
  rcases List.mem_map.mp below with ⟨_, leafBelow, ⟨⟩⟩
  refine ⟨field, inside, _, expands field inside, leaf, leafBelow, settled, settles, ?_⟩
  rw [same]

/-- In the flat form of a schema of documents, whatever tables it is linked with, every
lookup leads to a schema with its key and the field that it picks.  The column has the kind
at the end of the chain of the key, and the reference remembers the kind at the end of the
chain of the picked field. -/
theorem lookup_columns_have_key_kinds {tables : List Table} (documented : catalog.Documented)
    (linked : (ofCatalog catalog tables).result = .ok linkage) {schema : Schema}
    (member : schema ∈ catalog.schemas) :
    linkage.flatSchema schema.name = linkage.flatten schema ∧
      ∀ flat, linkage.flatten schema = .ok flat →
        ∀ column ∈ flat.fields, ∀ reference, column.reference? = some reference →
          ∃ target key picked keyKind pickedKind,
            linkage.rowSchema? reference.table = some target ∧
            target.field? reference.keyField = some key ∧
            target.field? reference.pickedField = some picked ∧
            column.kind = .scalar keyKind ∧
            LeadsTo linkage reference.table reference.keyField keyKind ∧
            reference.pickedKind = some (.scalar pickedKind) ∧
            LeadsTo linkage reference.table reference.pickedField pickedKind := by
  obtain ⟨sound, grounded⟩ := documented.grounded
  have knows := knows_of_ofCatalog sound.indexed grounded linked
  have defined : Definition.schema schema ∈ catalog.definitions :=
    List.mem_append_right _ (List.mem_map_of_mem member)
  have registered : linkage.schema? schema.name = some schema :=
    knows _ _ (sound.indexed.definition?_name defined)
  constructor
  · rw [flatSchema, registered]
  · intro flat flattened column among reference looksUp
    obtain ⟨field, inside, leaves, expands, leaf, below, settled, settles, shape⟩ :=
      exists_leaf_of_haveColumns (haveColumns_of_flatten flattened) among
    have grounds := expands.grounds knows grounded (grounded _ defined field inside) leaf below
    have flatColumn := List.all_eq_true.mp flat.flat column among
    have settledLooksUp : settled.shape.reference? = some reference := by
      rw [← shape]
      exact looksUp
    obtain ⟨keyKind, kind, key, pickedKind, remembers, picked⟩ :=
      settles.leadsTo knows grounds settledLooksUp fun _ => isScalar_of_isFlat flatColumn looksUp
    obtain ⟨target, keyTarget, rows, keyFound⟩ := key.exists_field
    obtain ⟨other, pickedTarget, otherRows, pickedFound⟩ := picked.exists_field
    cases rows.symm.trans otherRows
    refine ⟨target, keyTarget, pickedTarget, keyKind, pickedKind, rows, keyFound, pickedFound,
      ?_, key, remembers, picked⟩
    rw [Field.kind, shape, kind]

end

/-! ## Concrete documents -/

/-- A parcel has an item that is defined elsewhere, and stops that only a table knows. -/
def parcelDocument : String :=
  "\x7b\"name\": \"Parcel\", \"fields\":
    \x7b\"item\": \"Item.code.$price\", \"stops\": \"list<North.id.$name, 2>\"\x7d\x7d"

/-- An item has a code and a price. -/
def itemDocument : String :=
  "\x7b\"name\": \"Item\", \"fields\": \x7b\"code\": \"int32\", \"price\": \"double\"\x7d\x7d"

/-- The zones of the north. -/
def northTable : Table :=
  .ofSchema "North" { schema := zoneSchema, flat := by decide, counted := by decide }

/-- What a column with a lookup says about it. -/
structure ColumnLookup where
  table : String
  keyField : String
  pickedField : String
  kind : Kind
  pickedKind : Option Kind
  deriving DecidableEq

/-- The lookup of a column, if it has one. -/
def columnLookup? (column : Field) : Option ColumnLookup :=
  column.reference?.map fun reference =>
    ⟨reference.table, reference.keyField, reference.pickedField, column.kind,
      reference.pickedKind⟩

theorem parcel_lookups_have_key_kinds :
    ∃ catalog linkage flat, catalog.Documented ∧
      (ofCatalog catalog [northTable]).result = .ok linkage ∧
      linkage.flatSchema "Parcel" = .ok flat ∧
      flat.fields.filterMap columnLookup? =
        [⟨"Item", "code", "price", .scalar (.integer .bits32), some (.scalar (.real .bits64))⟩,
          ⟨"North", "id", "name", .scalar (.integer .bits16), some (.scalar .text)⟩,
          ⟨"North", "id", "name", .scalar (.integer .bits16), some (.scalar .text)⟩] ∧
      LeadsTo linkage "Item" "code" (.integer .bits32) ∧
      LeadsTo linkage "Item" "price" (.real .bits64) ∧
      LeadsTo linkage "North" "id" (.integer .bits16) ∧ LeadsTo linkage "North" "name" .text := by
  have computed : (do
      let parcels ← (Catalog.read { allowComments := false } parcelDocument).result.toOption
      let items ← (Catalog.read { allowComments := false } itemDocument).result.toOption
      let catalog := (parcels.absorb items).state
      let linkage ← (ofCatalog catalog [northTable]).result.toOption
      let schema ← catalog.schemas.head?
      let flat ← (linkage.flatten schema).toOption
      return (schema.name, flat.fields.filterMap columnLookup?)) =
      some ("Parcel",
        [⟨"Item", "code", "price", .scalar (.integer .bits32), some (.scalar (.real .bits64))⟩,
          ⟨"North", "id", "name", .scalar (.integer .bits16), some (.scalar .text)⟩,
          ⟨"North", "id", "name", .scalar (.integer .bits16), some (.scalar .text)⟩]) := by
    decide +kernel
  simp only [Option.bind_eq_bind, Option.bind_eq_some_iff, toOption_eq_some_iff, Option.pure_def,
    Option.some.injEq, Prod.mk.injEq] at computed
  rcases computed with
    ⟨parcels, parcelsRead, items, itemsRead, linkage, linked, schema, first, flat, flattened,
      name, lookups⟩
  have documented := Catalog.Documented.absorb (.read parcelsRead) (.read itemsRead)
  obtain ⟨named, kinds⟩ :=
    lookup_columns_have_key_kinds documented linked (List.mem_of_mem_head? first)
  have leads : ∀ table key picked keyKind pickedKind,
      ⟨table, key, picked, .scalar keyKind, some (.scalar pickedKind)⟩ ∈
        flat.fields.filterMap columnLookup? →
      LeadsTo linkage table key keyKind ∧ LeadsTo linkage table picked pickedKind := by
    intro table key picked keyKind pickedKind shown
    rcases List.mem_filterMap.mp shown with ⟨column, among, here⟩
    rcases Option.map_eq_some_iff.mp here with ⟨reference, looksUp, same⟩
    rw [ColumnLookup.mk.injEq] at same
    rcases same with ⟨rfl, rfl, rfl, kind, remembers⟩
    obtain ⟨_, _, _, _, _, _, _, _, keyKind, keyLeads, pickedKind, pickedLeads⟩ :=
      kinds flat flattened column among reference looksUp
    cases kind.symm.trans keyKind
    cases remembers.symm.trans pickedKind
    exact ⟨keyLeads, pickedLeads⟩
  rw [lookups] at leads
  obtain ⟨itemKey, itemPicked⟩ := leads "Item" "code" "price" _ _ List.mem_cons_self
  obtain ⟨stopKey, stopPicked⟩ :=
    leads "North" "id" "name" _ _ (List.mem_cons_of_mem _ List.mem_cons_self)
  rw [name, flattened] at named
  exact ⟨_, linkage, flat, documented, linked, named, lookups, itemKey, itemPicked, stopKey,
    stopPicked⟩

end Linkage

end Tabula
