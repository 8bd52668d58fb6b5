import Mathlib.Data.List.Nodup
import Tabula.Linkage.Assembly
import Tabula.Proofs.Outcome

/-!
# Registering schemas and tables

A table is refused only for a name that another one has.  So any tables with different
names can be registered, whatever their schemas, and afterwards they are all there:
each one under its own name, and under its schema together with the other tables over
that schema, in the order in which they came.
-/

namespace Tabula

namespace Linkage

/-! ## Schemas -/

/-- The linkage with a schema, unless the name of the schema is taken. -/
def bringSchema (linkage : Linkage) (schema : Schema) : Linkage :=
  if linkage.schemas.contains (.of schema.name) then linkage
  else { linkage with schemas := linkage.schemas.insert (.of schema.name) schema }

/-- A schema is refused exactly when one of its name is there and not compatible. -/
theorem registerSchema_eq_ok_iff {linkage next : Linkage} {schema : Schema} :
    linkage.registerSchema schema = .ok next ↔
      (∀ existing, linkage.schemas.find? (.of schema.name) = some existing →
        existing.compatible schema = true) ∧ next = linkage.bringSchema schema := by
  unfold registerSchema bringSchema Registry.contains
  cases found : linkage.schemas.find? (.of schema.name) with
  | none => simp [found, eq_comm (b := next)]
  | some existing =>
      cases agree : existing.compatible schema with
      | true => simp [found, agree, eq_comm (b := next)]
      | false => simp [found, agree]

@[simp]
theorem tables_bringSchema (linkage : Linkage) (schema : Schema) :
    (linkage.bringSchema schema).tables = linkage.tables := by
  unfold bringSchema
  split <;> rfl

@[simp]
theorem partials_bringSchema (linkage : Linkage) (schema : Schema) :
    (linkage.bringSchema schema).partials = linkage.partials := by
  unfold bringSchema
  split <;> rfl

/-- A schema that is found after one was brought along was there before or is that one. -/
theorem find?_schemas_bringSchema (linkage : Linkage) (schema : Schema) (key : NameKey) :
    (linkage.bringSchema schema).schemas.find? key =
      (linkage.schemas.find? key).or
        (if NameKey.of schema.name = key then some schema else none) := by
  unfold bringSchema
  split
  · rename_i taken
    by_cases here : NameKey.of schema.name = key
    · obtain ⟨existing, found⟩ := Option.isSome_iff_exists.mp taken
      rw [← here, found]
      rfl
    · simp [here]
  · rename_i vacant
    have absent : linkage.schemas.find? (.of schema.name) = none := by
      simpa [Registry.contains] using vacant
    rw [Registry.find?_insert]
    by_cases here : NameKey.of schema.name = key
    · simp [← here, absent]
    · simp [here]

theorem contains_schemas_bringSchema (linkage : Linkage) (schema : Schema) (key : NameKey) :
    (linkage.bringSchema schema).schemas.contains key =
      (linkage.schemas.contains key || decide (NameKey.of schema.name = key)) := by
  rw [Registry.contains, find?_schemas_bringSchema, Option.isSome_or, Registry.contains]
  by_cases here : NameKey.of schema.name = key
  · simp [here]
  · simp [here]

/-- Schemas with different names that are not taken are registered. -/
theorem exists_registerSchemas {linkage : Linkage} {schemas : List Schema}
    (fresh : ∀ schema ∈ schemas, linkage.schemas.find? (.of schema.name) = none)
    (distinct : (schemas.map (NameKey.of ·.name)).Nodup) :
    ∃ next, schemas.foldlM registerSchema linkage = .ok next := by
  induction schemas generalizing linkage with
  | nil => exact ⟨linkage, rfl⟩
  | cons schema schemas inductionHypothesis =>
      rw [List.forall_mem_cons] at fresh
      rw [List.map_cons, List.nodup_cons] at distinct
      have here : linkage.registerSchema schema = .ok (linkage.bringSchema schema) := by
        rw [registerSchema_eq_ok_iff, fresh.1]
        exact ⟨fun _ => nofun, rfl⟩
      have freshNext : ∀ other ∈ schemas,
          (linkage.bringSchema schema).schemas.find? (.of other.name) = none := by
        intro other member
        have different : NameKey.of schema.name ≠ NameKey.of other.name := by
          intro same
          exact distinct.1 (List.mem_map.mpr ⟨other, member, same.symm⟩)
        rw [find?_schemas_bringSchema, fresh.2 other member, if_neg different]
        rfl
      obtain ⟨next, further⟩ := inductionHypothesis freshNext distinct.2
      refine ⟨next, ?_⟩
      rw [List.foldlM_cons, here]
      exact further

/-! ## Tables -/

/-- The linkage with a table under its name and among the partial tables of its schema. -/
def fileTable (linkage : Linkage) (table : Table) : Linkage :=
  let key := NameKey.of table.schema.name
  let filed := (linkage.partials.find? key).getD []
  { linkage with
    partials := linkage.partials.insert key (filed ++ [.of table.name])
    tables := linkage.tables.insert (.of table.name) table }

/-- A table is refused exactly when its name is taken. -/
theorem registerTable_eq_ok_iff {linkage next : Linkage} {table : Table} :
    linkage.registerTable table = .ok next ↔
      linkage.tables.contains (.of table.name) = false ∧
        next = (linkage.bringSchema table.schema).fileTable table := by
  unfold registerTable
  cases taken : linkage.tables.contains (.of table.name) with
  | true => simp [taken]
  | false =>
      cases known : linkage.schemas.contains (.of table.schema.name) with
      | true =>
          have same : linkage.bringSchema table.schema = linkage := if_pos known
          simp [taken, known, same, fileTable, eq_comm (b := next)]
      | false =>
          have brought : linkage.registerSchema table.schema =
              .ok (linkage.bringSchema table.schema) := by
            rw [registerSchema_eq_ok_iff]
            refine ⟨?_, rfl⟩
            intro existing found
            simp [Registry.contains, found] at known
          simp [taken, known, brought, fileTable, eq_comm (b := next)]

/-! ## What is registered -/

/-- The tables over the schema that goes by a key, in their order. -/
def tablesOver (tables : List Table) (key : NameKey) : List Table :=
  tables.filter fun table => NameKey.of table.schema.name = key

theorem tablesOver_append_singleton (tables : List Table) (table : Table) (key : NameKey) :
    tablesOver (tables ++ [table]) key =
      tablesOver tables key ++
        if NameKey.of table.schema.name = key then [table] else [] := by
  by_cases here : NameKey.of table.schema.name = key
  · simp [tablesOver, here]
  · simp [tablesOver, here]

theorem tablesOver_eq_nil {tables : List Table} {key : NameKey}
    (none : ∀ table ∈ tables, NameKey.of table.schema.name ≠ key) : tablesOver tables key = [] := by
  rw [tablesOver, List.filter_eq_nil_iff]
  intro table member same
  exact none table member (of_decide_eq_true same)

/-- Among tables over different schemas, each is the only one over its own. -/
theorem tablesOver_eq_singleton {tables : List Table}
    (distinct : (tables.map fun table => NameKey.of table.schema.name).Nodup) {table : Table}
    (member : table ∈ tables) : tablesOver tables (.of table.schema.name) = [table] := by
  induction tables with
  | nil => cases member
  | cons first tables inductionHypothesis =>
      rw [List.map_cons, List.nodup_cons] at distinct
      rw [tablesOver]
      rcases List.mem_cons.mp member with rfl | further
      · have others : tablesOver tables (.of table.schema.name) = [] := by
          apply tablesOver_eq_nil
          intro other among same
          exact distinct.1 (List.mem_map.mpr ⟨other, among, same⟩)
        rw [tablesOver] at others
        rw [List.filter_cons_of_pos (by simp), others]
      · have different : NameKey.of first.schema.name ≠ NameKey.of table.schema.name := by
          intro same
          exact distinct.1 (List.mem_map.mpr ⟨table, further, same.symm⟩)
        rw [List.filter_cons_of_neg (by simpa using different)]
        exact inductionHypothesis distinct.2 further

/-- The linkage knows exactly the given tables, which came in the given order: under
their names, and under the keys of their schemas. -/
structure Registered (linkage : Linkage) (tables : List Table) : Prop where
  schemaNamed : ∀ key schema, linkage.schemas.find? key = some schema →
    NameKey.of schema.name = key
  tableAt : ∀ key, linkage.tables.find? key = tables.find? (NameKey.of ·.name = key)
  partialsAt : ∀ key keys, linkage.partials.find? key = some keys ↔
    tablesOver tables key ≠ [] ∧ keys = (tablesOver tables key).map (NameKey.of ·.name)
  schemaKnown : ∀ table ∈ tables, linkage.schemas.contains (.of table.schema.name) = true
  distinct : (tables.map (NameKey.of ·.name)).Nodup

theorem registered_empty : empty.Registered [] where
  schemaNamed := by
    rintro key schema ⟨⟩
  tableAt _ := rfl
  partialsAt := by
    intro key keys
    constructor
    · rintro ⟨⟩
    · rintro ⟨present, _⟩
      exact absurd rfl present
  schemaKnown := List.forall_mem_nil _
  distinct := List.nodup_nil

namespace Registered

variable {linkage next : Linkage} {tables : List Table}

theorem contains_tables_iff (registered : linkage.Registered tables) {key : NameKey} :
    linkage.tables.contains key = true ↔ key ∈ tables.map (NameKey.of ·.name) := by
  simp [Registry.contains, registered.tableAt, List.find?_isSome]

theorem getD_partials (registered : linkage.Registered tables) (key : NameKey) :
    (linkage.partials.find? key).getD [] = (tablesOver tables key).map (NameKey.of ·.name) := by
  cases found : linkage.partials.find? key with
  | some keys => exact ((registered.partialsAt key keys).mp found).2
  | none =>
      have nothing : tablesOver tables key = [] := by
        by_contra present
        have filed := (registered.partialsAt key _).mpr ⟨present, rfl⟩
        rw [found] at filed
        cases filed
      rw [nothing]
      rfl

/-- The partial tables of a schema are the tables over it. -/
theorem partialTablesAt_eq (registered : linkage.Registered tables) (key : NameKey) :
    linkage.partialTablesAt key = tablesOver tables key := by
  have found : ∀ table ∈ tablesOver tables key,
      linkage.tables.find? (.of table.name) = some table := by
    intro table member
    rw [registered.tableAt]
    exact find?_of_nodup_map registered.distinct (List.mem_of_mem_filter member)
  rw [partialTablesAt, registered.getD_partials, List.filterMap_map,
    Function.comp_def, List.filterMap_congr found, List.filterMap_some]

theorem bringSchema (registered : linkage.Registered tables) (schema : Schema) :
    (linkage.bringSchema schema).Registered tables where
  schemaNamed := by
    intro key other found
    rw [find?_schemas_bringSchema, Option.or_eq_some_iff] at found
    rcases found with before | ⟨_, brought⟩
    · exact registered.schemaNamed key other before
    · split at brought
      · rename_i same
        cases brought
        exact same
      · cases brought
  tableAt := by
    rw [tables_bringSchema]
    exact registered.tableAt
  partialsAt := by
    rw [partials_bringSchema]
    exact registered.partialsAt
  schemaKnown := by
    intro table member
    rw [contains_schemas_bringSchema, registered.schemaKnown table member]
    rfl
  distinct := registered.distinct

/-- A table with a new name over a schema that is known joins the others as the last
one. -/
theorem fileTable {table : Table} (registered : linkage.Registered tables)
    (fresh : linkage.tables.contains (.of table.name) = false)
    (known : linkage.schemas.contains (.of table.schema.name) = true) :
    (linkage.fileTable table).Registered (tables ++ [table]) := by
  have absent : NameKey.of table.name ∉ tables.map (NameKey.of ·.name) := by
    rw [← registered.contains_tables_iff, fresh]
    exact Bool.false_ne_true
  constructor
  · exact registered.schemaNamed
  · intro key
    rw [Linkage.fileTable, Registry.find?_insert, registered.tableAt, List.find?_append]
    by_cases here : NameKey.of table.name = key
    · have unnamed : tables.find? (NameKey.of ·.name = key) = none := by
        rw [List.find?_eq_none]
        intro other member same
        rw [decide_eq_true_eq] at same
        exact absent (List.mem_map.mpr ⟨other, member, same.trans here.symm⟩)
      simp [here, unnamed]
    · simp [here]
  · intro key keys
    rw [Linkage.fileTable, Registry.find?_insert, registered.getD_partials,
      tablesOver_append_singleton]
    by_cases here : NameKey.of table.schema.name = key
    · simp [here, eq_comm (b := keys)]
    · simpa [here] using registered.partialsAt key keys
  · intro member among
    rw [List.mem_append, List.mem_singleton] at among
    rcases among with before | rfl
    · exact registered.schemaKnown member before
    · exact known
  · rw [List.map_append, List.nodup_append]
    refine ⟨registered.distinct, List.nodup_singleton _, ?_⟩
    rintro key member _ (_ | _) rfl
    · exact absent member
    · contradiction

theorem registerTable {table : Table} (registered : linkage.Registered tables)
    (accepted : linkage.registerTable table = .ok next) :
    next.Registered (tables ++ [table]) := by
  obtain ⟨fresh, rfl⟩ := registerTable_eq_ok_iff.mp accepted
  apply (registered.bringSchema table.schema).fileTable
  · rw [tables_bringSchema]
    exact fresh
  · rw [contains_schemas_bringSchema]
    simp

theorem registerSchemas {schemas : List Schema} (registered : linkage.Registered tables)
    (accepted : schemas.foldlM registerSchema linkage = .ok next) :
    next.Registered tables := by
  induction schemas generalizing linkage with
  | nil =>
      cases accepted
      exact registered
  | cons schema schemas inductionHypothesis =>
      rw [List.foldlM_cons, bind_eq_ok_iff] at accepted
      rcases accepted with ⟨middle, here, further⟩
      obtain ⟨_, rfl⟩ := registerSchema_eq_ok_iff.mp here
      exact inductionHypothesis (registered.bringSchema schema) further

theorem registerTables {more : List Table} (registered : linkage.Registered tables)
    (accepted : more.foldlM Linkage.registerTable linkage = .ok next) :
    next.Registered (tables ++ more) := by
  induction more generalizing linkage tables with
  | nil =>
      cases accepted
      rwa [List.append_nil]
  | cons table more inductionHypothesis =>
      rw [List.foldlM_cons, bind_eq_ok_iff] at accepted
      rcases accepted with ⟨middle, here, further⟩
      rw [List.append_cons]
      exact inductionHypothesis (registered.registerTable here) further

/-- Tables are registered exactly when no two of them have one name. -/
theorem exists_registerTables_iff {more : List Table} (registered : linkage.Registered tables) :
    (∃ next, more.foldlM Linkage.registerTable linkage = .ok next) ↔
      ((tables ++ more).map (NameKey.of ·.name)).Nodup := by
  constructor
  · rintro ⟨next, accepted⟩
    exact (registered.registerTables accepted).distinct
  · intro distinct
    induction more generalizing linkage tables with
    | nil => exact ⟨linkage, rfl⟩
    | cons table more inductionHypothesis =>
        have fresh : linkage.tables.contains (.of table.name) = false := by
          rw [← Bool.not_eq_true, registered.contains_tables_iff]
          intro member
          rw [List.map_append, List.map_cons, List.nodup_append] at distinct
          exact distinct.2.2 _ member _ List.mem_cons_self rfl
        have here := registerTable_eq_ok_iff.mpr ⟨fresh, rfl⟩
        rw [List.append_cons] at distinct
        obtain ⟨next, further⟩ := inductionHypothesis (registered.registerTable here) distinct
        refine ⟨next, ?_⟩
        rw [List.foldlM_cons, here]
        exact further

end Registered

/-- Tables over registered schemas bring no schema along. -/
theorem schemas_registerTables {linkage next : Linkage} {tables : List Table}
    (known : ∀ table ∈ tables, linkage.schemas.contains (.of table.schema.name) = true)
    (accepted : tables.foldlM registerTable linkage = .ok next) :
    next.schemas = linkage.schemas := by
  induction tables generalizing linkage with
  | nil =>
      cases accepted
      rfl
  | cons table tables inductionHypothesis =>
      rw [List.forall_mem_cons] at known
      rw [List.foldlM_cons, bind_eq_ok_iff] at accepted
      rcases accepted with ⟨middle, here, further⟩
      obtain ⟨_, rfl⟩ := registerTable_eq_ok_iff.mp here
      have same : ((linkage.bringSchema table.schema).fileTable table).schemas =
          linkage.schemas := by
        rw [fileTable, bringSchema, if_pos known.1]
      rw [inductionHypothesis (by rw [same]; exact known.2) further, same]

end Linkage

end Tabula
