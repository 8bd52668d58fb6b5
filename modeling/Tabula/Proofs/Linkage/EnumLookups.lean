import Tabula.Proofs.Linkage.Readiness
import Tabula.Proofs.Linkage.Search

/-!
# Looking up the entries of enums

An enum of documents is linked before the other tables, so its entries come first in the
merged table of its schema.  Looking up the name of an entry, in any case, therefore yields
the value of that entry, whatever other tables are over the schema.  Where there are none, a
name that no entry has yields nothing.
-/

namespace Tabula

/-! ## Rows of entries -/

theorem EnumEntry.IsStored.rowMatches {width : IntegerWidth} {entry : EnumEntry} {row : Row}
    (isStored : entry.IsStored width row) (text : String) :
    Table.rowMatches 0 (CellKey.of (.text text)) row =
      decide (NameKey.of entry.name = NameKey.of text) := by
  rcases isStored with ⟨number, _, rfl⟩
  simp [Table.rowMatches, NameKey.of]

section

variable {width : IntegerWidth} {entries : List EnumEntry} {rows : List Row}

/-- The name of an entry, in any case, finds the row of the entry. -/
theorem exists_row_of_entry (each : List.Forall₂ (EnumEntry.IsStored width) entries rows)
    (distinct : (entries.map (NameKey.of ·.name)).Nodup) {entry : EnumEntry}
    (member : entry ∈ entries) {text : String} (same : NameKey.of text = NameKey.of entry.name) :
    ∃ row, rows.find? (Table.rowMatches 0 (CellKey.of (.text text))) = some row ∧
      entry.IsStored width row := by
  have found : entries.find? (fun other => NameKey.of other.name = NameKey.of text) =
      some entry := by
    rw [same]
    exact find?_of_nodup_map distinct member
  exact exists_find?_of_forall₂ each (EnumEntry.IsStored.rowMatches · text) found

/-- The values of entries are in a column of their width. -/
theorem Table.Lists.valueField {table : Table} (lists : table.Lists entries width) :
    table.schema.field? Definition.enumValueField =
      some (.ofKind Definition.enumValueField (.scalar (.integer width))) := by
  apply Schema.field?_eq_some_iff.mpr
  refine ⟨?_, rfl⟩
  change _ ∈ table.flat.fields
  rw [lists.fields, enumFields]
  exact List.mem_cons_of_mem _ List.mem_cons_self

/-- A name that no entry has finds no row. -/
theorem find?_rows_eq_none (each : List.Forall₂ (EnumEntry.IsStored width) entries rows)
    {text : String} (unknown : ∀ entry ∈ entries, NameKey.of text ≠ NameKey.of entry.name) :
    rows.find? (Table.rowMatches 0 (CellKey.of (.text text))) = none := by
  rw [List.find?_eq_none]
  intro row member
  obtain ⟨position, rowAt⟩ := List.getElem?_of_mem member
  obtain ⟨entry, entryAt, isStored⟩ := exists_getElem?_of_forall₂ each.flip rowAt
  rw [EnumEntry.IsStored.rowMatches isStored text, decide_eq_true_eq]
  exact (unknown entry (List.mem_of_getElem? entryAt)).symm

end

namespace Linkage

/-! ## The merged table of an enum -/

section

variable {catalog : Catalog} {tables : List Table} {linkage : Linkage}

/-- The partial tables of an enum are the enum and, behind it, the other tables over its
schema. -/
theorem partialTables_of_enum (documented : catalog.Documented)
    (linked : (ofCatalog catalog tables).result = .ok linkage) {enum : Table}
    (member : enum ∈ catalog.enumTables) (named : enum.schema.name = enum.name) :
    linkage.partialTables enum.name = enum :: tablesOver tables (.of enum.name) := by
  have only := tablesOver_enumTables documented member
  rw [named] at only
  rw [partialTables, (registered_of_link linked).partialTablesAt_eq, tablesOver, List.filter_append]
  exact congrArg (· ++ tablesOver tables (.of enum.name)) only

/-- The merged table of an enum has the columns of the enum.  Its rows are those of the enum
and those that other tables bring. -/
theorem exists_merged_of_enum (documented : catalog.Documented)
    (reached : ∀ table ∈ tables, table.Reachable)
    (linked : (ofCatalog catalog tables).result = .ok linkage) {enum : Table}
    (member : enum ∈ catalog.enumTables) (named : enum.schema.name = enum.name) :
    ∃ merged, linkage.mergedTable? enum.name = some merged ∧ merged.flat = enum.flat ∧
      merged.rows = enum.rows ++
        ((tablesOver tables (.of enum.name)).flatMap Table.rows).map enum.flat.refill := by
  obtain ⟨sound, grounded⟩ := documented.grounded
  have partials := partialTables_of_enum documented linked member named
  have all : ∀ table ∈ catalog.enumTables ++ tables, table.Reachable := by
    rw [List.forall_mem_append]
    exact ⟨fun _ among => reachable_of_documented documented among, reached⟩
  have present : linkage.partialTables enum.name ≠ [] := by
    rw [partials]
    exact List.cons_ne_nil _ _
  obtain ⟨flat, merged, flattened, held, takes⟩ := exists_takes_of_link linked all present
  have defined := sound.indexed.definition?_name (Catalog.enumTable_mem_definitions member)
  have registered : linkage.schema? enum.name = some enum.schema :=
    knows_of_ofCatalog sound.indexed grounded linked _ _ defined
  rw [flatSchema, registered] at flattened
  cases flattened.symm.trans (linkage.flatten_flat enum.flat)
  refine ⟨merged, held, takes.made, ?_⟩
  have obeys := takes.obey enum (by rw [partials]; exact List.mem_cons_self)
  have unchanged : ∀ row ∈ enum.rows, enum.flat.refill row = id row := by
    intro row among
    have suits := obeys.rows row among
    exact FlatSchema.refill_eq_self suits.length_eq.symm (FlatSchema.keeps_of_suits suits)
  rw [takes.rows, partials, List.flatMap_cons, List.map_append, List.map_congr_left unchanged,
    List.map_id]

end

/-! ## Values of entries -/

/-- A lookup by name in a table with the columns of an enum reads the value of the row that
the name finds. -/
theorem referenceValue_of_enumFields {linkage : Linkage} {name : String} {merged : Table}
    (held : linkage.mergedTable? name = some merged) {width : IntegerWidth}
    (fields : merged.flat.fields = enumFields width) (text : String) :
    linkage.referenceValue name Definition.enumNameField Definition.enumValueField (.text text) =
      (merged.rows.find? (Table.rowMatches 0 (CellKey.of (.text text)))).bind fun row =>
        row[1]?.join := by
  have nameAt : merged.flat.fields[0]? =
      some (.ofKind Definition.enumNameField (.scalar .text)) := by
    rw [fields]
    rfl
  obtain ⟨namePosition, valuePosition⟩ := Schema.positions_of_enumFields fields
  have asText : (Value.text text).coerce (Field.kind
      (.ofKind Definition.enumNameField (.scalar .text))) = .ok (.text text) :=
    Value.convert_self _
  rw [referenceValue_eq_consulted, consulted?, held, Option.some_or, Option.bind_some,
    Table.column?, Table.schema, valuePosition, Option.bind_some,
    Table.findRow?_of_column? namePosition nameAt, asText]
  rfl

/-- Each entry of an enum of documents is found by its name, in any case, and yields its own
value in the width of the enum, whatever tables are linked.  Without another table over the
schema of the enum, a name that no entry has yields nothing. -/
theorem enum_entries_resolve {catalog : Catalog} {tables : List Table} {linkage : Linkage}
    (documented : catalog.Documented) (reached : ∀ table ∈ tables, table.Reachable)
    (linked : (ofCatalog catalog tables).result = .ok linkage) {enum : Table}
    (member : enum ∈ catalog.enumTables) :
    ∃ entries width, enum.Lists entries width ∧
      (∃ header body parts, (Definition.readEnumTable header body).result = .ok enum ∧
        Definition.readEnumHeader header = .ok parts ∧
        Definition.readEnumParts parts body = .ok (entries, width)) ∧
      (enum.schema.field? Definition.enumValueField).map Field.kind =
        some (.scalar (.integer width)) ∧
      (∀ entry ∈ entries, ∀ text, NameKey.of text = NameKey.of entry.name →
        ∃ number : Whole width, number.value = entry.value.value ∧
          linkage.referenceValue enum.name Definition.enumNameField Definition.enumValueField
            (.text text) = some (.integer width number)) ∧
      ((∀ table ∈ tables, NameKey.of table.schema.name ≠ NameKey.of enum.name) →
        ∀ text, (∀ entry ∈ entries, NameKey.of text ≠ NameKey.of entry.name) →
          linkage.referenceValue enum.name Definition.enumNameField Definition.enumValueField
            (.text text) = none) := by
  obtain ⟨header, body, read⟩ := documented.exists_read member
  obtain ⟨parts, entries, width, headerRead, bodyRead, _, lists⟩ :=
    Definition.lists_of_readEnumTable read
  obtain ⟨merged, held, made, rows⟩ :=
    exists_merged_of_enum documented reached linked member lists.named
  have fields : merged.flat.fields = enumFields width := by
    rw [made]
    exact lists.fields
  refine ⟨entries, width, lists, ⟨header, body, parts, read, headerRead, bodyRead⟩, ?_, ?_, ?_⟩
  · rw [lists.valueField]
    rfl
  · intro entry among text same
    obtain ⟨row, found, number, value, rfl⟩ :=
      exists_row_of_entry lists.rows lists.distinct among same
    refine ⟨number, value, ?_⟩
    rw [referenceValue_of_enumFields held fields, rows, List.find?_append, found]
    rfl
  · intro alone text unknown
    rw [tablesOver_eq_nil alone, List.flatMap_nil, List.map_nil, List.append_nil] at rows
    rw [referenceValue_of_enumFields held fields, rows, find?_rows_eq_none lists.rows unknown]
    rfl

/-! ## Concrete tables -/

/-- Ranks that a table adds to those of the documents. -/
def rankSchema : FlatSchema where
  schema :=
    { name := "Rank"
      fields := enumFields .bits8
      distinct := by decide +kernel }
  flat := by decide
  counted := by decide

/-- Another cook. -/
def rankTable : Table :=
  ((Table.ofSchema "Ranks" rankSchema).perform
    (.addRow [some (.text "cook"), some (.text "9"), some (.text "")])).state

theorem reachable_rankTable : ∀ table ∈ [rankTable], table.Reachable := by
  rw [List.forall_mem_singleton]
  exact .step (.start "Ranks" rankSchema) _

theorem cook_resolves :
    ∃ catalog linkage enum, catalog.Documented ∧
      (ofCatalog catalog [rankTable]).result = .ok linkage ∧ enum ∈ catalog.enumTables ∧
      enum.name = "Rank" ∧
      ∃ number : Whole .bits8, number.value = 4 ∧
        linkage.referenceValue "Rank" "name" "value" (.text "COOK") =
          some (.integer .bits8 number) := by
  have computed : (do
      let catalog ← (Catalog.read { allowComments := false } knotDocument).result.toOption
      let linkage ← (ofCatalog catalog [rankTable]).result.toOption
      let enum ← catalog.enumTables.head?
      return (enum.name, enum.rows[1]?)) =
      some ("Rank", some [some (.text "Cook"),
        some (.integer .bits8 ⟨4, by decide, by decide⟩), some (.text "")]) := by
    decide +kernel
  simp only [Option.bind_eq_bind, Option.bind_eq_some_iff, toOption_eq_some_iff, Option.pure_def,
    Option.some.injEq, Prod.mk.injEq] at computed
  rcases computed with ⟨catalog, read, linkage, linked, enum, first, name, cook⟩
  have documented := Catalog.Documented.read read
  have member := List.mem_of_mem_head? first
  obtain ⟨entries, width, lists, _, _, resolve, _⟩ :=
    enum_entries_resolve documented reachable_rankTable linked member
  obtain ⟨entry, entryAt, stored, value, same⟩ := exists_getElem?_of_forall₂ lists.rows.flip cook
  simp only [List.cons.injEq, Option.some.injEq, Value.text.injEq, Value.integer.injEq] at same
  rcases same with ⟨entryName, ⟨rfl, sameNumber⟩, _⟩
  cases sameNumber
  have upper : NameKey.of "COOK" = NameKey.of entry.name := by
    rw [← entryName]
    decide +kernel
  obtain ⟨number, numberValue, found⟩ :=
    resolve entry (List.mem_of_getElem? entryAt) "COOK" upper
  rw [name] at found
  exact ⟨catalog, linkage, enum, documented, linked, member, name, number,
    numberValue.trans value.symm, found⟩

end Linkage

end Tabula
