import Mathlib.Data.List.Pairwise
import Tabula.Proofs.Field.Compatibility
import Tabula.Proofs.Table.Reinsertion

/-!
# Merging tables over one schema

A flat schema is compatible with itself, so tables over it can be merged.  Their stored
rows are taken as they are, and what may stand in the way is only a key that two of them
hold in a unique column.
-/

namespace Tabula

namespace Table

/-- Tables over one schema are compatible. -/
theorem compatible_of_flat_eq {table other : Table} (same : other.flat = table.flat) :
    table.compatible other = true := by
  rw [compatible, schema, schema, same]
  exact compatibleFields_self table.flat.flat

/-! ## Merging one table -/

theorem Obeys.suits_of_flat_eq {table other : Table} (obeys : other.Obeys)
    (same : other.flat = table.flat) :
    ∀ row ∈ other.rows, List.Forall₂ Field.Suits table.flat.fields row := by
  rw [← same]
  exact obeys.rows

namespace Sound

variable {table other : Table}

/-- Merging a table over the same schema is refused exactly when a unique column would
hold a key twice. -/
theorem merge_eq_ok_iff (sound : table.Sound) (obeys : other.Obeys)
    (same : other.flat = table.flat) :
    (table.merge other).result = .ok () ↔ (table.storeRows other.rows).KeysDistinct := by
  have suits := obeys.suits_of_flat_eq same
  have agree := compatible_of_flat_eq same
  cases outcome : table.addEach other.rows with
  | ok reached =>
      obtain ⟨result, _⟩ := merge_of_addEach_eq_ok agree outcome
      simp [result, ((sound.addEach_eq_ok_iff suits).mp outcome).1]
  | error refusal =>
      obtain ⟨result, _⟩ := merge_of_addEach_eq_error sound.aligned agree outcome
      simp only [result, reduceCtorEq, false_iff]
      intro distinct
      have accepted := (sound.addEach_eq_ok_iff suits).mpr ⟨distinct, rfl⟩
      rw [outcome] at accepted
      cases accepted

/-- The rows of a merged table are stored as they are. -/
theorem state_merge (sound : table.Sound) (obeys : other.Obeys)
    (same : other.flat = table.flat) (accepted : (table.merge other).result = .ok ()) :
    (table.merge other).state = table.storeRows other.rows ∧
      (table.storeRows other.rows).Sound := by
  have suits := obeys.suits_of_flat_eq same
  have distinct := (sound.merge_eq_ok_iff obeys same).mp accepted
  have stored := (sound.addEach_eq_ok_iff suits).mpr ⟨distinct, rfl⟩
  obtain ⟨_, state⟩ := merge_of_addEach_eq_ok (compatible_of_flat_eq same) stored
  exact ⟨state, sound.addEach stored⟩

end Sound

/-! ## Many tables -/

/-- In some unique column, two tables hold values with one key. -/
def SharesKey (flat : FlatSchema) (first second : Table) : Prop :=
  ∃ column field value other, flat.fields[column]? = some field ∧ field.head.unique = true ∧
    some value ∈ first.columnCells column ∧ some other ∈ second.columnCells column ∧
    CellKey.of value = CellKey.of other

theorem mem_storedKeys_iff {cells : List Cell} {key : CellKey} :
    key ∈ storedKeys cells ↔ ∃ value, some value ∈ cells ∧ CellKey.of value = key := by
  simp [storedKeys]

theorem not_sharesKey_iff {flat : FlatSchema} {first second : Table} :
    ¬SharesKey flat first second ↔ ∀ column field, flat.fields[column]? = some field →
      field.head.unique = true →
        (storedKeys (first.columnCells column)).Disjoint
          (storedKeys (second.columnCells column)) := by
  constructor
  · intro apart column field fieldAt unique key held otherHeld
    obtain ⟨value, member, rfl⟩ := mem_storedKeys_iff.mp held
    obtain ⟨other, otherMember, same⟩ := mem_storedKeys_iff.mp otherHeld
    exact apart ⟨column, field, value, other, fieldAt, unique, member, otherMember, same.symm⟩
  · rintro disjoint ⟨column, field, value, other, fieldAt, unique, member, otherMember, same⟩
    exact disjoint column field fieldAt unique (mem_storedKeys_iff.mpr ⟨value, member, rfl⟩)
      (mem_storedKeys_iff.mpr ⟨other, otherMember, same.symm⟩)

/-- The keys of a column once the rows of some tables were stored in an empty one. -/
theorem storedKeys_columnCells_storeRows (name : String) (flat : FlatSchema)
    (tables : List Table) (column : Nat) :
    storedKeys (((ofSchema name flat).storeRows (tables.flatMap Table.rows)).columnCells column) =
      tables.flatMap fun table => storedKeys (table.columnCells column) := by
  rw [columnCells_storeRows, List.map_flatMap]
  exact List.filterMap_flatMap

/-- The rows of different tables over one schema fit into one table exactly when no two of
the tables share a key. -/
theorem keysDistinct_storeRows_iff {name : String} {flat : FlatSchema} {tables : List Table}
    (different : tables.Nodup) (obeys : ∀ table ∈ tables, table.Obeys)
    (same : ∀ table ∈ tables, table.flat = flat) :
    ((ofSchema name flat).storeRows (tables.flatMap Table.rows)).KeysDistinct ↔
      ∀ first ∈ tables, ∀ second ∈ tables, first ≠ second → ¬SharesKey flat first second := by
  simp only [KeysDistinct, flat_storeRows, storedKeys_columnCells_storeRows,
    List.nodup_flatMap, not_sharesKey_iff]
  constructor
  · intro distinct first member second otherMember apart column field fieldAt unique
    have symmetric : Std.Symm (Function.onFun List.Disjoint fun table : Table =>
        storedKeys (table.columnCells column)) := ⟨fun _ _ => List.disjoint_symm⟩
    exact (distinct column field fieldAt unique).2.forall member otherMember apart
  · intro apart column field fieldAt unique
    constructor
    · intro table member
      apply (obeys table member).unique column field _ unique
      rw [same table member]
      exact fieldAt
    · apply different.pairwise_of_forall_ne
      intro first member second otherMember unequal
      exact apart first member second otherMember unequal column field fieldAt unique

end Table

end Tabula
