import Mathlib.Data.List.Find
import Tabula.Proofs.Linkage.Concatenation
import Tabula.Proofs.Table.UniqueSearch

/-!
# Looking values up in partial tables

A lookup searches the merged table of a schema, under the names that the flat form of the
schema gives to its columns.  Tables are merged position for position, so it finds what a
search of the partial tables finds when each of them is asked for the columns at the same
positions, under its own names.
-/

namespace Tabula

namespace Table

/-- The first row that a search for a value finds when the table is asked for a column by
the name that it has there. -/
def findRowIn? (table : Table) (column : Nat) (value : Value) : Option Row :=
  table.flat.fields[column]?.bind fun field => table.findRow? field.name value

theorem findRowIn?_eq {table : Table} {column : Nat} {field : Field}
    (fieldAt : table.flat.fields[column]? = some field) (value : Value) :
    table.findRowIn? column value = (value.coerce field.kind).toOption.bind fun wanted =>
      table.rows.find? (rowMatches column (CellKey.of wanted)) := by
  rw [findRowIn?, fieldAt, Option.bind_some]
  exact findRow?_of_column? (Schema.position?_of_getElem? fieldAt) fieldAt value

end Table

/-! ## Cells that are taken over -/

/-- A cell that is not filled is taken over as it is. -/
theorem FlatSchema.cell_refill {flat : FlatSchema} {column : Nat} {field : Field} {row : Row}
    (fieldAt : flat.fields[column]? = some field) (keeps : flat.KeepsAt column row) :
    (flat.refill row)[column]? = row[column]? := by
  rw [refill, List.getElem?_zipWith, fieldAt]
  rcases cellAt : row[column]? with _ | _ | value
  · rfl
  · simp [Field.refill, keeps field fieldAt cellAt]
  · rfl

theorem rowMatches_refill {flat : FlatSchema} {column : Nat} {field : Field} {row : Row}
    (fieldAt : flat.fields[column]? = some field) (keeps : flat.KeepsAt column row)
    (wanted : CellKey) :
    Table.rowMatches column wanted (flat.refill row) = Table.rowMatches column wanted row := by
  rw [Table.rowMatches, FlatSchema.cell_refill fieldAt keeps, Table.rowMatches]

/-! ## Searching table after table -/

/-- The cell at a position of the first row that is found when tables are searched one
after another for a value in the column at another position. -/
def searchTables (tables : List Table) (keyColumn pickedColumn : Nat) (value : Value) : Cell :=
  (tables.findSome? (·.findRowIn? keyColumn value)).bind fun row => row[pickedColumn]?.join

/-- Searching compatible tables one after another is searching all their rows. -/
theorem findSome?_findRowIn? {flat : FlatSchema} {tables : List Table}
    (agree : ∀ table ∈ tables, flat.schema.compatible table.schema = true)
    {column : Nat} {field : Field} (fieldAt : flat.fields[column]? = some field)
    (value : Value) :
    tables.findSome? (·.findRowIn? column value) =
      (value.coerce field.kind).toOption.bind fun wanted =>
        (tables.flatMap Table.rows).find? (Table.rowMatches column (CellKey.of wanted)) := by
  have each : ∀ table ∈ tables, table.findRowIn? column value =
      (value.coerce field.kind).toOption.bind fun wanted =>
        table.rows.find? (Table.rowMatches column (CellKey.of wanted)) := by
    intro table member
    obtain ⟨own, ownAt, compatible⟩ :=
      exists_getElem?_of_forall₂ (compatibleFields_iff.mp (agree table member)) fieldAt
    rw [Table.findRowIn?_eq ownAt, Field.kind_eq_of_compatible compatible]
  rw [← List.head?_filterMap, List.filterMap_congr each, List.head?_filterMap]
  cases (value.coerce field.kind).toOption with
  | none => simp
  | some wanted => exact List.find?_flatMap.symm

namespace Linkage

/-- A search through the merged rows finds what a search through the rows of the partial
tables does, refilled. -/
theorem Takes.find?_rows {flat : FlatSchema} {merged : Table} {partials : List Table}
    (takes : Takes flat merged partials) {column : Nat} {field : Field}
    (fieldAt : flat.fields[column]? = some field)
    (keeps : ∀ row ∈ partials.flatMap Table.rows, flat.KeepsAt column row)
    (wanted : CellKey) :
    merged.rows.find? (Table.rowMatches column wanted) =
      ((partials.flatMap Table.rows).find? (Table.rowMatches column wanted)).map
        flat.refill := by
  have alike : ∀ row ∈ partials.flatMap Table.rows,
      (Table.rowMatches column wanted ∘ flat.refill) row =
        Table.rowMatches column wanted row := by
    intro row member
    exact rowMatches_refill fieldAt (keeps row member) wanted
  rw [takes.rows, List.find?_map, List.find?_congr alike]

/-- A lookup through a merged table yields nothing when the flat form lacks one of the
columns.  Otherwise it yields what a search of the partial tables at the positions of the
columns does, unless an empty cell was filled from a fallback there. -/
theorem referenceValue_eq_searchTables {schemas : List Schema} {tables : List Table}
    {linkage : Linkage} (linked : (link schemas tables).result = .ok linkage)
    (reached : ∀ table ∈ tables, table.Reachable) {name : String}
    (present : linkage.partialTables name ≠ []) (keyField pickedField : String)
    (value : Value) :
    ∃ flat, linkage.flatSchema name = .ok flat ∧
      (flat.schema.position? keyField = none ∨ flat.schema.position? pickedField = none →
        linkage.referenceValue name keyField pickedField value = none) ∧
      ∀ keyColumn pickedColumn, flat.schema.position? keyField = some keyColumn →
        flat.schema.position? pickedField = some pickedColumn →
          (∀ row ∈ (linkage.partialTables name).flatMap Table.rows,
            flat.KeepsAt keyColumn row ∧ flat.KeepsAt pickedColumn row) →
          linkage.referenceValue name keyField pickedField value =
            searchTables (linkage.partialTables name) keyColumn pickedColumn value := by
  obtain ⟨flat, merged, flattened, held, takes⟩ := exists_takes_of_link linked reached present
  have columnOf (field : String) : merged.column? field = flat.schema.position? field := by
    rw [Table.column?, Table.schema, takes.made]
  have through : linkage.referenceValue name keyField pickedField value =
      (merged.column? pickedField).bind fun column =>
        (merged.findRow? keyField value).bind fun row => row[column]?.join := by
    rw [referenceValue, held]
    rfl
  refine ⟨flat, flattened, ?_, ?_⟩
  · rintro (keyMissing | pickedMissing)
    · have unfound : merged.findRow? keyField value = none := by
        rw [Table.findRow?, columnOf, keyMissing]
        rfl
      rw [through, unfound]
      simp
    · rw [through, columnOf, pickedMissing]
      rfl
  · intro keyColumn pickedColumn keyAt pickedAt keeps
    obtain ⟨field, fieldAt⟩ := Schema.exists_getElem?_of_position? keyAt
    obtain ⟨picked, pickedFieldAt⟩ := Schema.exists_getElem?_of_position? pickedAt
    have mergedAt : merged.flat.fields[keyColumn]? = some field := by
      rw [takes.made]
      exact fieldAt
    have keyKeeps : ∀ row ∈ (linkage.partialTables name).flatMap Table.rows,
        flat.KeepsAt keyColumn row := fun row member => (keeps row member).1
    rw [through, columnOf, pickedAt, Option.bind_some, searchTables,
      findSome?_findRowIn? takes.agree fieldAt,
      Table.findRow?_of_column? ((columnOf keyField).trans keyAt) mergedAt]
    cases (value.coerce field.kind).toOption with
    | none => rfl
    | some wanted =>
        rw [Option.bind_some, Option.bind_some, takes.find?_rows fieldAt keyKeeps]
        cases found : ((linkage.partialTables name).flatMap Table.rows).find?
            (Table.rowMatches keyColumn (CellKey.of wanted)) with
        | none => rfl
        | some row =>
            have member := List.mem_of_find?_eq_some found
            rw [Option.map_some, Option.bind_some, Option.bind_some,
              FlatSchema.cell_refill pickedFieldAt (keeps row member).2]

/-! ## Concrete tables -/

/-- Zones whose columns go by other names. -/
def districtSchema : FlatSchema where
  schema :=
    { name := "Zone"
      fields := [.ofKind "code" (.scalar (.integer .bits16)), .ofKind "label" (.scalar .text)]
      distinct := by decide +kernel }
  flat := by decide
  counted := by decide

/-- Two tables of one zone each. -/
def districts : List Table :=
  [((Table.ofSchema "North" districtSchema).perform
      (.addRow [some (.text "3"), some (.text "Fjord")])).state,
    ((Table.ofSchema "South" districtSchema).perform
      (.addRow [some (.text "7"), some (.text "Coast")])).state]

theorem reachable_districts : ∀ table ∈ districts, table.Reachable := by
  simp only [districts, List.forall_mem_cons]
  exact ⟨.step (.start "North" districtSchema) _, .step (.start "South" districtSchema) _,
    List.forall_mem_nil _⟩

/-- What a search through the partial tables finds when each is asked by the same names. -/
def searchByNames (tables : List Table) (keyField pickedField : String) (value : Value) :
    Cell :=
  (tables.findSome? fun table => (table.findRow? keyField value).map fun row =>
    (table.column? pickedField).bind fun column => row[column]?.join).join

theorem exists_linked_districts :
    ∃ linkage flat, (link [zoneSchema] districts).result = .ok linkage ∧
      linkage.partialTables "zone" ≠ [] ∧ linkage.flatSchema "zone" = .ok flat ∧
      flat.schema.position? "id" = some 0 ∧ flat.schema.position? "name" = some 1 ∧
      flat.fields.all (·.head.fallback.isNone) = true ∧
      linkage.referenceValue "zone" "id" "name" (.text "7") = some (.text "Coast") ∧
      searchByNames (linkage.partialTables "zone") "id" "name" (.text "7") = none := by
  have computed : (do
      let linkage ← (link [zoneSchema] districts).result
      let flat ← linkage.flatSchema "zone"
      return ((linkage.partialTables "zone").map Table.name,
        (flat.schema.position? "id", flat.schema.position? "name",
          flat.fields.all (·.head.fallback.isNone)),
        linkage.referenceValue "zone" "id" "name" (.text "7"),
        searchByNames (linkage.partialTables "zone") "id" "name" (.text "7"))) =
      .ok (["North", "South"], (some 0, some 1, true), some (.text "Coast"), none) := by
    decide +kernel
  simp only [bind_eq_ok_iff, pure_eq_ok_iff, Prod.mk.injEq] at computed
  rcases computed with
    ⟨linkage, linked, flat, flattened, names, ⟨key, picked, plain⟩, found, missed⟩
  refine ⟨linkage, flat, linked, ?_, flattened, key, picked, plain, found, missed⟩
  intro absent
  rw [absent] at names
  cases names

theorem districts_are_searched :
    ∃ linkage, (link [zoneSchema] districts).result = .ok linkage ∧
      searchTables (linkage.partialTables "zone") 0 1 (.text "7") = some (.text "Coast") := by
  obtain ⟨linkage, flat, linked, present, flattened, key, picked, plain, found, _⟩ :=
    exists_linked_districts
  obtain ⟨other, otherFlattened, _, searched⟩ :=
    referenceValue_eq_searchTables linked reachable_districts present "id" "name" (.text "7")
  cases flattened.symm.trans otherFlattened
  have keeps (column : Nat) (row : Row) : flat.KeepsAt column row := by
    intro field fieldAt _
    have vacant := List.all_eq_true.mp plain field (List.mem_of_getElem? fieldAt)
    exact Option.isNone_iff_eq_none.mp vacant
  refine ⟨linkage, linked, ?_⟩
  rw [← searched 0 1 key picked fun row _ => ⟨keeps 0 row, keeps 1 row⟩, found]

/-- A lookup does not always find what the partial tables hold under the same names. -/
theorem referenceValue_ne_searchByNames :
    ¬∀ schemas tables linkage, (link schemas tables).result = .ok linkage →
      (∀ table ∈ tables, table.Reachable) → ∀ name, linkage.partialTables name ≠ [] →
        ∀ keyField pickedField value,
          linkage.referenceValue name keyField pickedField value =
            searchByNames (linkage.partialTables name) keyField pickedField value := by
  intro agrees
  obtain ⟨linkage, _, linked, present, _, _, _, _, found, missed⟩ := exists_linked_districts
  have same := agrees _ _ linkage linked reachable_districts "zone" present "id" "name"
    (.text "7")
  rw [found, missed] at same
  cases same

end Linkage

end Tabula
