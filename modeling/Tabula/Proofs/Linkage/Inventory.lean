import Mathlib.Algebra.BigOperators.Group.List.Basic
import Mathlib.Algebra.Ring.Nat
import Tabula.Proofs.Linkage.Concatenation

/-!
# The inventory of a linkage

Linking neither loses a table nor counts one twice.  The tables stay in the order in which
they came, each is filed under the one registered schema that goes by the name of its own,
and merging moves every row of a partial table into the merged table.  None of this depends
on what the tables hold.
-/

namespace Tabula

/-! ## Filing under a new key -/

theorem Registry.values_insert {α : Type} {registry : Registry α} {key : NameKey}
    (vacant : registry.contains key = false) (value : α) :
    (registry.insert key value).values = registry.values ++ [value] := by
  unfold insert values
  rw [dif_neg (by simp [vacant]), List.map_append]
  rfl

/-! ## Counting rows -/

namespace Table

theorem length_rows_of_addEach {table reached : Table} {batch : List (List Cell)}
    (stored : table.addEach batch = .ok reached) :
    reached.rows.length = table.rows.length + batch.length := by
  induction batch generalizing table with
  | nil =>
      cases stored
      rfl
  | cons inputs batch inductionHypothesis =>
      rw [addEach_cons, bind_eq_ok_iff] at stored
      rcases stored with ⟨next, here, further⟩
      rcases addRow_eq_ok_iff.mp here with ⟨row, _, rfl⟩
      rw [inductionHypothesis further, rows_storeRow, List.length_append,
        List.length_singleton, List.length_cons, Nat.add_assoc, Nat.add_comm 1]

/-- A merge that is accepted adds as many rows as the other table has. -/
theorem length_rows_of_merge {table other : Table}
    (accepted : (table.merge other).result = .ok ()) :
    (table.merge other).state.rows.length = table.rows.length + other.rows.length := by
  cases agree : table.compatible other with
  | false => simp [merge, agree] at accepted
  | true =>
      rcases table.storeUntilRefused_eq other.rows with
        ⟨reached, stored, _⟩ | ⟨_, _, refusal, _, _, outcome⟩
      · rw [(merge_of_addEach_eq_ok agree stored).2]
        exact length_rows_of_addEach stored
      · simp [merge, agree, addRows, outcome] at accepted

end Table

namespace Linkage

theorem length_rows_of_mergePartials {merged result : Table} {tables : List Table}
    (accepted : (mergePartials merged tables).result = .ok result) :
    result.rows.length = merged.rows.length + (tables.map (·.rows.length)).sum := by
  induction tables generalizing merged with
  | nil =>
      cases accepted
      simp
  | cons table tables inductionHypothesis =>
      rcases mergePartials_cons_eq_ok_iff.mp accepted with ⟨_, taken, further⟩
      rw [inductionHypothesis further, Table.length_rows_of_merge taken, List.map_cons,
        List.sum_cons, Nat.add_assoc]

/-! ## The registered tables -/

theorem tables_registerSchemas {linkage next : Linkage} {schemas : List Schema}
    (accepted : schemas.foldlM registerSchema linkage = .ok next) :
    next.tables = linkage.tables := by
  induction schemas generalizing linkage with
  | nil =>
      cases accepted
      rfl
  | cons schema schemas inductionHypothesis =>
      rw [List.foldlM_cons, bind_eq_ok_iff] at accepted
      rcases accepted with ⟨middle, here, further⟩
      obtain ⟨_, rfl⟩ := registerSchema_eq_ok_iff.mp here
      rw [inductionHypothesis further, tables_bringSchema]

theorem values_registerTables {linkage next : Linkage} {tables : List Table}
    (accepted : tables.foldlM registerTable linkage = .ok next) :
    next.tables.values = linkage.tables.values ++ tables := by
  induction tables generalizing linkage with
  | nil =>
      cases accepted
      rw [List.append_nil]
  | cons table tables inductionHypothesis =>
      rw [List.foldlM_cons, bind_eq_ok_iff] at accepted
      rcases accepted with ⟨middle, here, further⟩
      obtain ⟨fresh, rfl⟩ := registerTable_eq_ok_iff.mp here
      rw [← tables_bringSchema linkage table.schema] at fresh
      rw [inductionHypothesis further, fileTable, Registry.values_insert fresh,
        tables_bringSchema, List.append_assoc, List.singleton_append]

/-- The tables of a linkage are the given ones in the given order. -/
theorem values_tables_of_link {schemas : List Schema} {tables : List Table}
    {linkage : Linkage} (linked : (link schemas tables).result = .ok linkage) :
    linkage.tables.values = tables := by
  obtain ⟨base, registered, merged, schemasIn, tablesIn, _, rfl⟩ := link_eq_ok_iff.mp linked
  change registered.tables.values = tables
  rw [values_registerTables tablesIn, tables_registerSchemas schemasIn]
  rfl

/-! ## The registered schemas -/

/-- The registered schemas go by the keys under which they are filed. -/
theorem Registered.map_key_values {linkage : Linkage} {tables : List Table}
    (registered : linkage.Registered tables) :
    (linkage.schemas.values.map fun schema => NameKey.of schema.name) =
      linkage.schemas.keys := by
  rw [Registry.values, Registry.keys, List.map_map]
  apply List.map_congr_left
  rintro ⟨key, schema⟩ member
  exact registered.schemaNamed key schema (Registry.find?_eq_some_iff.mpr member)

/-- A registered schema is found under its own name. -/
theorem Registered.find?_schemas {linkage : Linkage} {tables : List Table}
    (registered : linkage.Registered tables) {schema : Schema}
    (member : schema ∈ linkage.schemas.values) :
    linkage.schemas.find? (.of schema.name) = some schema := by
  rcases List.mem_map.mp member with ⟨⟨key, _⟩, entry, rfl⟩
  have found := Registry.find?_eq_some_iff.mpr entry
  rw [registered.schemaNamed key _ found]
  exact found

/-- Registered schemas are told apart by their names. -/
theorem Registered.eq_of_key_eq {linkage : Linkage} {tables : List Table}
    (registered : linkage.Registered tables) {schema other : Schema}
    (member : schema ∈ linkage.schemas.values) (otherMember : other ∈ linkage.schemas.values)
    (same : NameKey.of schema.name = NameKey.of other.name) : schema = other := by
  have found := registered.find?_schemas member
  rw [same, registered.find?_schemas otherMember, Option.some.injEq] at found
  exact found.symm

/-- Each table is over a registered schema. -/
theorem Registered.exists_schema {linkage : Linkage} {tables : List Table}
    (registered : linkage.Registered tables) {table : Table} (member : table ∈ tables) :
    ∃ schema ∈ linkage.schemas.values,
      NameKey.of schema.name = NameKey.of table.schema.name := by
  obtain ⟨schema, found⟩ := Option.isSome_iff_exists.mp (registered.schemaKnown table member)
  refine ⟨schema, ?_, registered.schemaNamed _ _ found⟩
  exact List.mem_map.mpr ⟨_, Registry.find?_eq_some_iff.mp found, rfl⟩

/-! ## The whole inventory -/

/-- Linking loses no table and counts none twice.  The tables are those given, in order.
Each belongs to exactly one registered schema, the one that its own schema names, and each
schema has the tables that name it, in order.  A schema has a merged table exactly when it
has partial ones, with as many rows as these have together. -/
theorem linked_tables_are_accounted_for {schemas : List Schema} {tables : List Table}
    {linkage : Linkage} (linked : (link schemas tables).result = .ok linkage) :
    linkage.tables.values = tables ∧
    (∀ table ∈ tables, ∃ schema ∈ linkage.schemas.values,
      NameKey.of schema.name = NameKey.of table.schema.name ∧
        ∀ other ∈ linkage.schemas.values,
          (table ∈ linkage.partialTables other.name ↔ other = schema)) ∧
    (∀ name, linkage.partialTables name =
      tables.filter fun table => NameKey.of table.schema.name = NameKey.of name) ∧
    (∀ name, (linkage.mergedTable? name).isSome = true ↔ linkage.partialTables name ≠ []) ∧
    ∀ name merged, linkage.mergedTable? name = some merged →
      merged.rows.length = ((linkage.partialTables name).map (·.rows.length)).sum := by
  have known := registered_of_link linked
  have filed (name : String) : linkage.partialTables name = tablesOver tables (.of name) :=
    known.partialTablesAt_eq _
  refine ⟨values_tables_of_link linked, ?_, filed, ?_, ?_⟩
  · intro table member
    obtain ⟨schema, among, named⟩ := known.exists_schema member
    refine ⟨schema, among, named, ?_⟩
    intro other otherAmong
    rw [filed, tablesOver, List.mem_filter, decide_eq_true_eq]
    constructor
    · rintro ⟨_, same⟩
      exact known.eq_of_key_eq otherAmong among (same.symm.trans named.symm)
    · rintro rfl
      exact ⟨member, named.symm⟩
  · intro name
    rw [Option.isSome_iff_exists]
    constructor
    · rintro ⟨merged, held⟩
      exact partialTables_ne_nil_of_mergedTable? linked held
    · intro present
      obtain ⟨_, _, merged, _, _, held, _⟩ := exists_merged_of_link linked present
      exact ⟨merged, held⟩
  · intro name merged held
    obtain ⟨schema, flat, table, _, _, found, taken⟩ :=
      exists_merged_of_link linked (partialTables_ne_nil_of_mergedTable? linked held)
    cases held.symm.trans found
    rw [length_rows_of_mergePartials taken]
    exact Nat.zero_add _

/-! ## Concrete tables -/

/-- Another shade, over a schema that spells its name differently. -/
def loudShades : Table :=
  ((Table.ofSchema "Loud shades"
    { bareShadeSchema with schema := { bareShadeSchema.schema with name := "SHADE" } }).perform
      (.addRow [some (.integer .bits32 ⟨9, by decide, by decide⟩), some (.text "red")])).state

theorem shades_and_items_are_accounted_for :
    ∃ linkage merged,
      (link [shadeSchema] [bareShades, Table.itemTable, loudShades]).result = .ok linkage ∧
      linkage.tables.values = [bareShades, Table.itemTable, loudShades] ∧
      (linkage.partialTables "shade").map Table.name = ["Shades", "Loud shades"] ∧
      linkage.mergedTable? "shade" = some merged ∧ merged.rows.length = 2 := by
  have computed : (do
      let linkage ← (link [shadeSchema] [bareShades, Table.itemTable, loudShades]).result
      return (linkage.partialTables "shade").map fun (table : Table) =>
        (table.name, table.rows.length)) =
      .ok [("Shades", 1), ("Loud shades", 1)] := by
    decide +kernel
  simp only [bind_eq_ok_iff, pure_eq_ok_iff] at computed
  rcases computed with ⟨linkage, linked, own⟩
  obtain ⟨values, _, _, exists_iff, counts⟩ := linked_tables_are_accounted_for linked
  have present : linkage.partialTables "shade" ≠ [] := by
    intro absent
    rw [absent] at own
    cases own
  obtain ⟨merged, held⟩ := Option.isSome_iff_exists.mp ((exists_iff "shade").mpr present)
  have names := congrArg (List.map Prod.fst) own
  have sizes := congrArg (List.map Prod.snd) own
  simp only [List.map_map, Function.comp_def] at names sizes
  refine ⟨linkage, merged, linked, values, names, held, ?_⟩
  rw [counts "shade" merged held, sizes]
  rfl

end Linkage

end Tabula
