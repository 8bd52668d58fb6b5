import Tabula.Proofs.Linkage.Concatenation
import Tabula.Proofs.Linkage.LookupKinds

/-!
# The tables that lookups consult

The kind of a lookup column is taken from the schema that its target names, and only when
there is none from a table of that name.  Following the lookup asks the merged table of the
name first, and then the table of that name.  Both find the same fields, except where a
schema has no partial tables and a table over another schema has the name of the schema:
then the kind comes from the schema, and the rows come from the table.
-/

namespace Tabula

/-! ## Flat forms of flat schemas -/

namespace Linkage

/-- A flat schema is its own flat form. -/
theorem flatten_flat (linkage : Linkage) (flat : FlatSchema) :
    linkage.flatten flat.schema = .ok flat := by
  rw [flatten, if_pos flat.flat, FlatSchema.ofSchema_schema]
  rfl

/-! ## Columns of fields that a chain leads through -/

/-- A field whose chain ends at a kind has a column of its own name and of that kind. -/
theorem exists_column_of_leadsTo {linkage : Linkage} {schema : Schema} {flat : FlatSchema}
    (flattened : linkage.flatten schema = .ok flat) {table field : String} {kind : ScalarKind}
    (rows : linkage.rowSchema? table = some schema) (leads : LeadsTo linkage table field kind) :
    ∃ column, flat.schema.field? field = some column ∧ column.kind = .scalar kind := by
  obtain ⟨target, found, settlesTo, expands⟩ : ∃ target, schema.field? field = some target ∧
      (∀ settled, SettlesHead linkage target.head settled → settled.shape.kind = .scalar kind) ∧
      Expands linkage target [.here target] := by
    cases leads with
    | scalar schemaFound fieldFound shape =>
        cases rows.symm.trans schemaFound
        refine ⟨_, fieldFound, ?_, .scalar shape⟩
        intro settled settles
        cases settles with
        | scalar => rw [shape, Shape.kind]
        | lookup otherShape => cases shape.symm.trans otherShape
    | lookup schemaFound fieldFound shape further =>
        cases rows.symm.trans schemaFound
        refine ⟨_, fieldFound, ?_, .lookup shape⟩
        intro settled settles
        cases settles with
        | scalar otherShape => cases shape.symm.trans otherShape
        | lookup otherShape key =>
            cases shape.symm.trans otherShape
            rw [Shape.kind, key.unique further]
  obtain ⟨member, named⟩ := Schema.field?_eq_some_iff.mp found
  obtain ⟨_, ⟨leavesOf, expanded, rfl⟩, each⟩ := haveColumns_of_flatten flattened
  have leaf : (target.name, Leaf.here target) ∈
      schema.fields.flatMap fun field => (leavesOf field).map (field.name, ·) := by
    rw [List.mem_flatMap]
    refine ⟨target, member, ?_⟩
    rw [(expanded target member).unique expands]
    exact List.mem_cons_self
  obtain ⟨position, leafAt⟩ := List.getElem?_of_mem leaf
  obtain ⟨column, columnAt, settled, settles, same⟩ :=
    exists_getElem?_of_forall₂ each leafAt
  refine ⟨column, ?_, ?_⟩
  · rw [Schema.field?_eq_some_iff, ← named, Field.name, same]
    exact ⟨List.mem_of_getElem? columnAt, rfl⟩
  · rw [Field.kind, same]
    exact settlesTo settled settles

/-! ## Tables that are consulted -/

/-- The table whose rows a lookup searches: the merged table of the name, else the table of
that name. -/
def consulted? (linkage : Linkage) (name : String) : Option Table :=
  (linkage.mergedTable? name).or (linkage.table? name)

/-- A lookup reads nothing but the table that it consults. -/
theorem referenceValue_eq_consulted (linkage : Linkage) (name keyField pickedField : String)
    (value : Value) :
    linkage.referenceValue name keyField pickedField value =
      (linkage.consulted? name).bind fun table =>
        (table.column? pickedField).bind fun column =>
          (table.findRow? keyField value).bind fun row => row[column]?.join :=
  rfl

/-- The name stands for a schema without partial tables, and also for a table. -/
structure Ambiguous (linkage : Linkage) (name : String) : Prop where
  schemaFound : ∃ schema, linkage.schema? name = some schema
  bare : linkage.partialTables name = []
  tableFound : ∃ table, linkage.table? name = some table

/-- Taking partial tables in changes nothing of what a table is made over. -/
theorem flat_of_mergePartials {merged result : Table} {tables : List Table}
    (reached : merged.Reachable) (accepted : (mergePartials merged tables).result = .ok result) :
    result.flat = merged.flat := by
  induction tables generalizing merged with
  | nil =>
      cases accepted
      rfl
  | cons table tables inductionHypothesis =>
      obtain ⟨_, _, further⟩ := mergePartials_cons_eq_ok_iff.mp accepted
      rw [inductionHypothesis (reached.step (.merge table)) further]
      exact (Table.perform_keeps reached.aligned (.merge table)).2

section

variable {schemas : List Schema} {tables : List Table} {linkage : Linkage}

/-- A merged table is made over the flat form of the schema of its name. -/
theorem flatten_of_mergedTable? (linked : (link schemas tables).result = .ok linkage)
    {name : String} {table : Table} (found : linkage.mergedTable? name = some table) :
    ∃ schema, linkage.schema? name = some schema ∧ linkage.flatten schema = .ok table.flat := by
  obtain ⟨schema, flat, merged, schemaFound, flattened, held, taken⟩ :=
    exists_merged_of_link linked (partialTables_ne_nil_of_mergedTable? linked found)
  rw [held] at found
  cases found
  refine ⟨schema, schemaFound, ?_⟩
  rw [flat_of_mergePartials (.start _ _) taken]
  rwa [flatSchema, schemaFound] at flattened

/-- Unless the name is ambiguous, the table that a lookup consults is made over the flat
form of the schema that the kinds of the lookup are taken from. -/
theorem flatten_of_consulted? (linked : (link schemas tables).result = .ok linkage)
    {name : String} {table : Table} (consults : linkage.consulted? name = some table)
    (clear : ¬linkage.Ambiguous name) :
    ∃ schema, linkage.rowSchema? name = some schema ∧
      linkage.flatten schema = .ok table.flat := by
  rw [consulted?, Option.or_eq_some_iff] at consults
  rcases consults with merged | ⟨unmerged, authored⟩
  · obtain ⟨schema, found, flattened⟩ := flatten_of_mergedTable? linked merged
    refine ⟨schema, ?_, flattened⟩
    rw [rowSchema?, found]
    rfl
  · refine ⟨table.schema, ?_, linkage.flatten_flat table.flat⟩
    cases found : linkage.schema? name with
    | none =>
        rw [rowSchema?, found, authored]
        rfl
    | some schema =>
        -- The schema has no merged table, so it has no partial tables either.
        refine absurd ⟨⟨schema, found⟩, ?_, table, authored⟩ clear
        by_contra present
        obtain ⟨_, _, _, _, _, held, _⟩ := exists_merged_of_link linked present
        rw [unmerged] at held
        cases held

end

/-! ## Consulted columns -/

section

variable {linkage : Linkage} {catalog : Catalog}

/-- The lookup of a column leads to the kind of the column and to the kind that it
remembers. -/
theorem leadsTo_of_column (knows : linkage.Knows catalog) (grounded : catalog.IsGrounded)
    {schema : Schema} (member : schema ∈ catalog.schemas) {flat : FlatSchema}
    (flattened : linkage.flatten schema = .ok flat) {column : Field}
    (among : column ∈ flat.fields) {reference : Reference}
    (looksUp : column.reference? = some reference) :
    ∃ keyKind pickedKind, column.kind = .scalar keyKind ∧
      LeadsTo linkage reference.table reference.keyField keyKind ∧
      reference.pickedKind = some (.scalar pickedKind) ∧
      LeadsTo linkage reference.table reference.pickedField pickedKind := by
  obtain ⟨field, inside, leaves, expands, leaf, below, settled, settles, shape⟩ :=
    exists_leaf_of_haveColumns (haveColumns_of_flatten flattened) among
  have grounds := expands.grounds knows grounded (grounded.fields member field inside) leaf below
  have flatColumn := List.all_eq_true.mp flat.flat column among
  rw [Field.kind, shape]
  rw [Field.reference?, shape] at looksUp
  obtain ⟨keyKind, kind, key, pickedKind, remembers, picked⟩ :=
    settles.leadsTo knows grounds looksUp fun picked remembers =>
      isScalar_of_isFlat flatColumn (by rw [Field.reference?, shape, looksUp]) remembers
  exact ⟨keyKind, pickedKind, kind, key, remembers, picked⟩

/-- The table that the lookup of a column consults has the key and the picked field among
its columns, of the kinds that the column has and remembers, unless the name of the table is
that of a schema without partial tables too. -/
theorem consulted_tables_have_lookup_columns {tables : List Table}
    (documented : catalog.Documented) (linked : (ofCatalog catalog tables).result = .ok linkage)
    {schema : Schema} (member : schema ∈ catalog.schemas) {flat : FlatSchema}
    (flattened : linkage.flatten schema = .ok flat) {column : Field}
    (among : column ∈ flat.fields) {reference : Reference}
    (looksUp : column.reference? = some reference) {table : Table}
    (consults : linkage.consulted? reference.table = some table)
    (clear : ¬linkage.Ambiguous reference.table) :
    ∃ key picked, table.schema.field? reference.keyField = some key ∧
      table.schema.field? reference.pickedField = some picked ∧
      key.kind = column.kind ∧ reference.pickedKind = some picked.kind := by
  obtain ⟨sound, grounded⟩ := documented.grounded
  have knows := knows_of_ofCatalog sound.indexed grounded linked
  obtain ⟨keyKind, pickedKind, kind, keyLeads, remembers, pickedLeads⟩ :=
    leadsTo_of_column knows grounded member flattened among looksUp
  obtain ⟨target, rows, formed⟩ := flatten_of_consulted? linked consults clear
  obtain ⟨key, keyFound, sameKind⟩ := exists_column_of_leadsTo formed rows keyLeads
  obtain ⟨picked, pickedFound, samePicked⟩ := exists_column_of_leadsTo formed rows pickedLeads
  exact ⟨key, picked, keyFound, pickedFound, sameKind.trans kind.symm,
    remembers.trans (congrArg some samePicked.symm)⟩

end

/-! ## Concrete documents -/

theorem parcel_stops_consult_north :
    ∃ catalog linkage schema flat column reference table, catalog.Documented ∧
      (ofCatalog catalog [northTable]).result = .ok linkage ∧ schema ∈ catalog.schemas ∧
      linkage.flatten schema = .ok flat ∧ column ∈ flat.fields ∧
      column.reference? = some reference ∧ linkage.consulted? reference.table = some table ∧
      ¬linkage.Ambiguous reference.table ∧
      (column.name, column.kind, table.name) =
        ("stops[1]", .scalar (.integer .bits16), "North") ∧
      ∃ key picked, table.schema.field? reference.keyField = some key ∧
        table.schema.field? reference.pickedField = some picked ∧
        key.kind = column.kind ∧ reference.pickedKind = some picked.kind := by
  have computed : (do
      let catalog ← (Catalog.read { allowComments := false } parcelDocument).result.toOption
      let items ← (Catalog.read { allowComments := false } itemDocument).result.toOption
      let catalog := (catalog.absorb items).state
      let linkage ← (ofCatalog catalog [northTable]).result.toOption
      let schema ← catalog.schemas.head?
      let flat ← (linkage.flatten schema).toOption
      let column ← flat.fields[2]?
      let reference ← column.reference?
      let table ← linkage.consulted? reference.table
      return ((column.name, column.kind, table.name),
        (linkage.schema? reference.table).isNone)) =
      some (("stops[1]", .scalar (.integer .bits16), "North"), true) := by
    decide +kernel
  simp only [Option.bind_eq_bind, Option.bind_eq_some_iff, toOption_eq_some_iff, Option.pure_def,
    Option.some.injEq, Prod.mk.injEq] at computed
  rcases computed with
    ⟨parcels, parcelsRead, items, itemsRead, linkage, linked, schema, first, flat, flattened,
      column, columnAt, reference, looksUp, table, consults, ⟨name, kind, tableName⟩, absent⟩
  have documented := Catalog.Documented.absorb (.read parcelsRead) (.read itemsRead)
  have member := List.mem_of_mem_head? first
  have among := List.mem_of_getElem? columnAt
  have clear : ¬linkage.Ambiguous reference.table := by
    rintro ⟨⟨other, found⟩, _, _⟩
    rw [found] at absent
    cases absent
  refine ⟨_, linkage, schema, flat, column, reference, table, documented, linked, member,
    flattened, among, looksUp, consults, clear, ?_, ?_⟩
  · rw [name, kind, tableName]
  · exact consulted_tables_have_lookup_columns documented linked member flattened among looksUp
      consults clear

/-- Loot is one of the wares, which are numbered. -/
def lootDocument : String :=
  "[\x7b\"name\": \"Loot\", \"fields\": \x7b\"ware\": \"Ware.id.$name\"\x7d\x7d,
    \x7b\"name\": \"Ware\", \"fields\": \x7b\"id\": \"int16\", \"name\": \"string\"\x7d\x7d]"

/-- Things that go by texts. -/
def thingSchema : FlatSchema where
  schema :=
    { name := "Thing"
      fields := [.ofKind "id" (.scalar .text), .ofKind "name" (.scalar .text)]
      distinct := by decide +kernel }
  flat := by decide
  counted := by decide

/-- A table of things that has the name of the wares. -/
def wareTable : Table :=
  ((Table.ofSchema "Ware" thingSchema).perform
    (.addRow [some (.text "7"), some (.text "Sword")])).state

theorem reachable_wareTable : ∀ table ∈ [wareTable], table.Reachable := by
  rw [List.forall_mem_singleton]
  exact .step (.start "Ware" thingSchema) _

/-- A table may be consulted whose key has another kind than the column: loot has a number
for its ware, and things go by texts. -/
theorem consulted_keys_differ :
    ¬∀ catalog tables linkage, catalog.Documented → (∀ table ∈ tables, table.Reachable) →
      (ofCatalog catalog tables).result = .ok linkage →
      ∀ schema ∈ catalog.schemas, ∀ flat, linkage.flatten schema = .ok flat →
        ∀ column ∈ flat.fields, ∀ reference, column.reference? = some reference →
          ∀ table, linkage.consulted? reference.table = some table →
            ∃ key picked, table.schema.field? reference.keyField = some key ∧
              table.schema.field? reference.pickedField = some picked ∧
              key.kind = column.kind := by
  intro agrees
  have computed : (do
      let catalog ← (Catalog.read { allowComments := false } lootDocument).result.toOption
      let linkage ← (ofCatalog catalog [wareTable]).result.toOption
      let schema ← catalog.schemas.head?
      let flat ← (linkage.flatten schema).toOption
      let column ← flat.fields.head?
      let reference ← column.reference?
      let table ← linkage.consulted? reference.table
      let key ← table.schema.field? reference.keyField
      return (column.kind, key.kind)) =
      some (.scalar (.integer .bits16), .scalar .text) := by
    decide +kernel
  simp only [Option.bind_eq_bind, Option.bind_eq_some_iff, toOption_eq_some_iff, Option.pure_def,
    Option.some.injEq, Prod.mk.injEq] at computed
  rcases computed with
    ⟨catalog, read, linkage, linked, schema, first, flat, flattened, column, firstColumn,
      reference, looksUp, table, consults, key, keyFound, columnKind, keyKind⟩
  obtain ⟨other, _, otherFound, _, same⟩ :=
    agrees catalog _ linkage (.read read) reachable_wareTable linked schema
      (List.mem_of_mem_head? first) flat flattened column (List.mem_of_mem_head? firstColumn)
      reference looksUp table consults
  cases keyFound.symm.trans otherFound
  rw [columnKind, keyKind] at same
  cases same

end Linkage

end Tabula
