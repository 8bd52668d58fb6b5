import Tabula.Proofs.Linkage.Extension
import Tabula.Proofs.Linkage.Merging
import Tabula.Proofs.Table.Adoption

/-!
# Rows of merged tables

A linkage has a merged table for every schema with partial tables.  It is a table over the
flat form of the schema, whatever the partial tables were made over, and holds their rows,
one table after another, refilled.  So it concatenates them exactly when none of their
cells is empty in a column that has a fallback in the flat form.
-/

namespace Tabula

namespace Linkage

/-! ## Merging compatible tables -/

/-- Partial tables that are taken in are compatible, and stored one after another,
refilled. -/
theorem eq_storeRows_of_mergePartials {merged result : Table} {tables : List Table}
    (sound : merged.Sound) (obey : ∀ table ∈ tables, table.Obeys)
    (accepted : (mergePartials merged tables).result = .ok result) :
    (∀ table ∈ tables, merged.compatible table = true) ∧ result.Sound ∧
      result = merged.storeRows ((tables.flatMap Table.rows).map merged.flat.refill) := by
  induction tables generalizing merged with
  | nil =>
      cases accepted
      exact ⟨List.forall_mem_nil _, sound, rfl⟩
  | cons table tables inductionHypothesis =>
      rw [List.forall_mem_cons] at obey
      rcases mergePartials_cons_eq_ok_iff.mp accepted with ⟨agree, taken, further⟩
      obtain ⟨state, stored⟩ := sound.state_merge_of_compatible obey.1 taken
      rw [state] at further
      obtain ⟨others, whole, same⟩ := inductionHypothesis stored obey.2 further
      have kept : ∀ other : Table, (merged.storeRows
          (table.rows.map merged.flat.refill)).compatible other = merged.compatible other := by
        intro other
        rw [Table.compatible, Table.schema, Table.flat_storeRows]
        rfl
      simp only [kept] at others
      rw [Table.flat_storeRows] at same
      refine ⟨List.forall_mem_cons.mpr ⟨agree, others⟩, whole, ?_⟩
      rw [same, List.flatMap_cons, List.map_append, Table.storeRows_append]

/-! ## The merged tables of a linkage -/

/-- Replacing the merged tables takes no part in flattening. -/
theorem extends_with_merged (linkage : Linkage) (merged : Registry Table) :
    ({ linkage with merged } : Linkage).Extends linkage :=
  ⟨rfl, fun _ _ found => found⟩

/-- Every schema with partial tables has a merged table, which is made over the flat form
of the schema and takes the partial tables in. -/
theorem exists_merged_of_link {schemas : List Schema} {tables : List Table}
    {linkage : Linkage} (linked : (link schemas tables).result = .ok linkage) {name : String}
    (present : linkage.partialTables name ≠ []) :
    ∃ schema flat merged, linkage.schema? name = some schema ∧
      linkage.flatSchema name = .ok flat ∧ linkage.mergedTable? name = some merged ∧
      (mergePartials (.ofSchema schema.name flat) (linkage.partialTables name)).result =
        .ok merged := by
  have known := registered_of_link linked
  obtain ⟨base, registered, merged, _, _, mergedAll, rfl⟩ := link_eq_ok_iff.mp linked
  rw [partialTables, known.partialTablesAt_eq] at present
  have filed := (known.partialsAt (.of name) _).mpr ⟨present, rfl⟩
  obtain ⟨first, member⟩ := List.exists_mem_of_ne_nil _ present
  rw [tablesOver, List.mem_filter, decide_eq_true_eq] at member
  rcases member with ⟨member, named⟩
  have contained := known.schemaKnown first member
  rw [named] at contained
  obtain ⟨schema, found⟩ := Option.isSome_iff_exists.mp contained
  obtain ⟨_, each⟩ := find?_of_mergeAll registered.schemas.distinct mergedAll
  obtain ⟨table, accepted, held⟩ := each _ schema _ (Registry.find?_eq_some_iff.mp found) filed
  obtain ⟨flat, flattened, taken⟩ := mergedTable_eq_ok_iff.mp accepted
  refine ⟨schema, flat, table, found, ?_, held, ?_⟩
  · rw [flatSchema, schema?, found]
    exact (extends_with_merged registered merged).flatten flattened
  · rw [partialTables, partialTablesAt, filed]
    exact taken

/-- A schema with a merged table has partial tables. -/
theorem partialTables_ne_nil_of_mergedTable? {schemas : List Schema} {tables : List Table}
    {linkage : Linkage} (linked : (link schemas tables).result = .ok linkage) {name : String}
    {table : Table} (held : linkage.mergedTable? name = some table) :
    linkage.partialTables name ≠ [] := by
  have known := registered_of_link linked
  obtain ⟨base, registered, merged, _, _, mergedAll, rfl⟩ := link_eq_ok_iff.mp linked
  rcases exists_partials_of_mergeAll mergedAll held with ⟨⟨⟩⟩ | ⟨partials, filed⟩
  rw [partialTables, known.partialTablesAt_eq]
  exact ((known.partialsAt _ _).mp filed).1

/-- Partial tables were given to be linked. -/
theorem mem_of_mem_partialTables {schemas : List Schema} {tables : List Table}
    {linkage : Linkage} (linked : (link schemas tables).result = .ok linkage) {name : String}
    {table : Table} (member : table ∈ linkage.partialTables name) : table ∈ tables := by
  rw [partialTables, (registered_of_link linked).partialTablesAt_eq] at member
  exact List.mem_of_mem_filter member

/-- The table is over the flat schema and holds the rows of the other tables, which are
compatible, one table after another and refilled. -/
structure Takes (flat : FlatSchema) (merged : Table) (partials : List Table) : Prop where
  obey : ∀ table ∈ partials, table.Obeys
  agree : ∀ table ∈ partials, flat.schema.compatible table.schema = true
  sound : merged.Sound
  made : merged.flat = flat
  rows : merged.rows = (partials.flatMap Table.rows).map flat.refill

theorem exists_takes_of_link {schemas : List Schema} {tables : List Table}
    {linkage : Linkage} (linked : (link schemas tables).result = .ok linkage)
    (reached : ∀ table ∈ tables, table.Reachable) {name : String}
    (present : linkage.partialTables name ≠ []) :
    ∃ flat merged, linkage.flatSchema name = .ok flat ∧
      linkage.mergedTable? name = some merged ∧
      Takes flat merged (linkage.partialTables name) := by
  obtain ⟨schema, flat, merged, _, flattened, held, taken⟩ :=
    exists_merged_of_link linked present
  have obey : ∀ table ∈ linkage.partialTables name, table.Obeys := by
    intro table member
    exact (reached table (mem_of_mem_partialTables linked member)).sound.obeys
  obtain ⟨agree, sound, same⟩ :=
    eq_storeRows_of_mergePartials (Table.sound_ofSchema _ _) obey taken
  refine ⟨flat, merged, flattened, held, obey, agree, sound, ?_, ?_⟩
  · rw [same]
    exact Table.flat_storeRows _ _
  · rw [same]
    exact Table.rows_storeRows _ _

/-- Refilling changes no row of the tables when no cell is empty under a fallback. -/
theorem Takes.rows_of_keeps {flat : FlatSchema} {merged : Table} {partials : List Table}
    (takes : Takes flat merged partials)
    (keeps : ∀ row ∈ partials.flatMap Table.rows, flat.Keeps row) :
    merged.rows = partials.flatMap Table.rows := by
  have unchanged : ∀ row ∈ partials.flatMap Table.rows, flat.refill row = id row := by
    intro row member
    rcases List.mem_flatMap.mp member with ⟨table, among, here⟩
    have wide := ((takes.obey table among).rows row here).length_eq
    have equally := length_eq_of_compatibleFields (takes.agree table among)
    exact FlatSchema.refill_eq_self (wide.symm.trans equally.symm) (keeps row member)
  rw [takes.rows, List.map_congr_left unchanged, List.map_id]

/-- Rows that are the same as before were not filled. -/
theorem Takes.keeps_of_rows {flat : FlatSchema} {merged : Table} {partials : List Table}
    (takes : Takes flat merged partials) (same : merged.rows = partials.flatMap Table.rows) :
    ∀ row ∈ partials.flatMap Table.rows, flat.Keeps row := by
  intro row member
  apply FlatSchema.keeps_of_suits
  rw [← takes.made]
  apply takes.sound.obeys.rows
  rw [same]
  exact member

/-- The merged table of a schema is over its flat form.  It holds the rows of the partial
tables, one table after another, with the fallbacks of the flat form in the place of empty
cells, so they are the very rows exactly when there is no such cell. -/
theorem merged_rows_are_refilled {schemas : List Schema} {tables : List Table}
    {linkage : Linkage} (linked : (link schemas tables).result = .ok linkage)
    (reached : ∀ table ∈ tables, table.Reachable) {name : String}
    (present : linkage.partialTables name ≠ []) :
    ∃ flat merged, linkage.flatSchema name = .ok flat ∧
      linkage.mergedTable? name = some merged ∧ merged.flat = flat ∧
      merged.rows = ((linkage.partialTables name).flatMap Table.rows).map flat.refill ∧
      (merged.rows = (linkage.partialTables name).flatMap Table.rows ↔
        ∀ row ∈ (linkage.partialTables name).flatMap Table.rows, flat.Keeps row) := by
  obtain ⟨flat, merged, flattened, held, takes⟩ := exists_takes_of_link linked reached present
  refine ⟨flat, merged, flattened, held, takes.made, takes.rows, ?_⟩
  constructor
  · exact takes.keeps_of_rows
  · exact takes.rows_of_keeps

/-! ## Concrete tables -/

/-- Shades with labels, which are plain unless something else is known. -/
def shadeSchema : Schema where
  name := "Shade"
  fields :=
    [.ofKind "code" (.scalar (.integer .bits32)),
    .single
      { name := "label", typeText := "string", nullable := true
        shape := .scalar .text none
        fallback := some (.text "plain") }]
  distinct := by decide +kernel

/-- Shades that may go without a label. -/
def bareShadeSchema : FlatSchema where
  schema :=
    { name := "Shade"
      fields :=
        [.ofKind "code" (.scalar (.integer .bits32)),
        .single
          { name := "label", typeText := "string", nullable := true
            shape := .scalar .text none }]
      distinct := by decide +kernel }
  flat := by decide
  counted := by decide

/-- A shade without a label. -/
def bareShade : Row :=
  [some (.integer .bits32 ⟨7, by decide, by decide⟩), none]

/-- Shades of which one has no label. -/
def bareShades : Table :=
  ((Table.ofSchema "Shades" bareShadeSchema).perform (.addRow bareShade)).state

theorem reachable_bareShades : ∀ table ∈ [bareShades], table.Reachable := by
  rw [List.forall_mem_singleton]
  exact .step (.start "Shades" bareShadeSchema) _

theorem exists_linked_shades :
    ∃ linkage merged, (link [shadeSchema] [bareShades]).result = .ok linkage ∧
      linkage.partialTables "shade" ≠ [] ∧
      (linkage.partialTables "shade").flatMap Table.rows = [bareShade] ∧
      linkage.mergedTable? "shade" = some merged ∧
      merged.rows =
        [[some (.integer .bits32 ⟨7, by decide, by decide⟩), some (.text "plain")]] := by
  have computed : (do
      let linkage ← (link [shadeSchema] [bareShades]).result
      return ((linkage.partialTables "shade").flatMap Table.rows,
        (linkage.mergedTable? "shade").map Table.rows)) =
      .ok ([bareShade],
        some [[some (.integer .bits32 ⟨7, by decide, by decide⟩), some (.text "plain")]]) := by
    decide +kernel
  simp only [bind_eq_ok_iff, pure_eq_ok_iff, Prod.mk.injEq, Option.map_eq_some_iff] at computed
  rcases computed with ⟨linkage, linked, own, merged, held, rows⟩
  refine ⟨linkage, merged, linked, ?_, own, held, rows⟩
  intro absent
  rw [absent] at own
  cases own

theorem bareShades_are_refilled :
    ∃ linkage flat merged, (link [shadeSchema] [bareShades]).result = .ok linkage ∧
      linkage.flatSchema "shade" = .ok flat ∧ linkage.mergedTable? "shade" = some merged ∧
      merged.rows = [flat.refill bareShade] ∧ ¬flat.Keeps bareShade := by
  obtain ⟨linkage, table, linked, present, own, found, filled⟩ := exists_linked_shades
  obtain ⟨flat, merged, flattened, held, _, rows, same⟩ :=
    merged_rows_are_refilled linked reachable_bareShades present
  rw [own] at rows same
  refine ⟨linkage, flat, merged, linked, flattened, held, rows, ?_⟩
  intro keeps
  have unchanged := same.mpr (List.forall_mem_singleton.mpr keeps)
  cases found.symm.trans held
  rw [filled] at unchanged
  cases unchanged

/-- Merging does not always concatenate: an empty cell may meet a fallback. -/
theorem merging_is_not_concatenation :
    ¬∀ schemas tables linkage, (link schemas tables).result = .ok linkage →
      (∀ table ∈ tables, table.Reachable) → ∀ name, linkage.partialTables name ≠ [] →
        ∃ merged, linkage.mergedTable? name = some merged ∧
          merged.rows = (linkage.partialTables name).flatMap Table.rows := by
  intro concatenates
  obtain ⟨linkage, table, linked, present, own, found, filled⟩ := exists_linked_shades
  obtain ⟨merged, held, rows⟩ :=
    concatenates _ _ linkage linked reachable_bareShades "shade" present
  cases found.symm.trans held
  rw [filled, own] at rows
  cases rows

end Linkage

end Tabula
