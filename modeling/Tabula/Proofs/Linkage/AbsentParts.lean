import Tabula.Proofs.Linkage.Embedding
import Tabula.Proofs.Table.Alignment
import Tabula.Proofs.Table.Reinsertion

/-!
# Absent parts

A list, and an embedded field that may be empty, stand for columns that may be empty and
have no fallback.  A row that names none of these columns leaves them empty, with one
exception: flattening does not take the counter from a leaf that has one, and a counter
fills every empty cell of its column.  So an absent part is stored as nothing exactly
where its leaves have no counters.
-/

namespace Tabula

/-- The field stands for a part that rows may lack: it is a list, or an embedded field
that may be empty. -/
def Field.MayBeAbsent (field : Field) : Prop :=
  field.kind = .list ∨ field.kind = .embedded ∧ field.head.nullable = true

/-- Without a fallback, it takes a counter to fill an empty cell. -/
theorem Table.isSome_of_prepareCell_none {name : String} {field : Field} {ledger : Ledger}
    {cell : Cell} (counted : ledger.counter.isSome = field.head.autoIncrement)
    (noFallback : field.head.fallback = none)
    (prepared : prepareCell name field ledger none = .ok cell) :
    cell.isSome = field.head.autoIncrement := by
  have filling : (filled field ledger none).isSome = field.head.autoIncrement := by
    simp [filled, noFallback, Ledger.next?, counted]
  rw [← filling]
  unfold prepareCell at prepared
  split at prepared
  · rename_i empty
    split at prepared
    · cases prepared
      rw [empty]
    · cases prepared
  · rename_i value given
    rw [given]
    split at prepared
    · cases prepared
    · split at prepared
      · cases prepared
      · cases prepared
        rfl

namespace Linkage

/-- The column at a position is that of a leaf below the field. -/
def Produces (linkage : Linkage) (schema : Schema) (field : Field) (position : Nat)
    (leaf : Leaf) : Prop :=
  ∃ leaves, ExpandsAll linkage schema.fields leaves ∧
    leaves[position]? = some (field.name, leaf)

/-- No input names a column of the field. -/
def Lacks (linkage : Linkage) (schema : Schema) (field : Field) (table : Table)
    (inputs : List (String × Cell)) : Prop :=
  ∀ position leaf, linkage.Produces schema field position leaf →
    ∀ input ∈ inputs, table.column? input.1 ≠ some position

/-! ## Leaves of parts that may be absent -/

theorem Expands.optional {linkage : Linkage} {field : Field} {leaves : List Leaf}
    (expands : Expands linkage field leaves) (mayBeAbsent : field.MayBeAbsent) :
    ∀ leaf ∈ leaves, leaf.optional = true := by
  intro leaf member
  cases expands with
  | scalar shape => simp [Field.MayBeAbsent, Field.kind, shape, Shape.kind] at mayBeAbsent
  | lookup shape => simp [Field.MayBeAbsent, Field.kind, shape, Shape.kind] at mayBeAbsent
  | bareList => cases member
  | list =>
      rcases List.mem_flatMap.mp member with ⟨position, _, inside⟩
      rcases List.mem_map.mp inside with ⟨below, _, rfl⟩
      rfl
  | embedded shape =>
      rcases List.mem_flatMap.mp member with ⟨child, _, inside⟩
      rcases List.mem_map.mp inside with ⟨below, _, rfl⟩
      rcases mayBeAbsent with list | ⟨_, nullable⟩
      · rw [Field.kind, shape] at list
        cases list
      · rw [Leaf.inChild, nullable, Bool.or_true]

/-- The leaves below one field of a schema are told from the others by its name. -/
theorem Produces.exists_leaves {linkage : Linkage} {schema : Schema} {field : Field}
    {position : Nat} {leaf : Leaf} (produces : linkage.Produces schema field position leaf)
    (among : field ∈ schema.fields) : ∃ leaves, Expands linkage field leaves ∧ leaf ∈ leaves := by
  rcases produces with ⟨leaves, ⟨leavesOf, expands, rfl⟩, found⟩
  rcases List.mem_flatMap.mp (List.mem_of_getElem? found) with ⟨other, member, inside⟩
  rcases List.mem_map.mp inside with ⟨below, within, same⟩
  rcases Prod.mk.inj same with ⟨name, rfl⟩
  -- Names tell the fields of a schema apart.
  have equal : other = field :=
    List.inj_on_of_nodup_map schema.distinct member among (congrArg NameKey.of name)
  exact ⟨leavesOf field, expands field among, equal ▸ within⟩

/-- The column of a part that may be absent can be empty, has no fallback, and has a
counter if the leaf has one. -/
theorem Produces.exists_column {linkage : Linkage} {schema : Schema} {flat : FlatSchema}
    (flattened : linkage.flatten schema = .ok flat) {field : Field}
    (among : field ∈ schema.fields) (mayBeAbsent : field.MayBeAbsent) {position : Nat}
    {leaf : Leaf} (produces : linkage.Produces schema field position leaf) :
    ∃ column, flat.fields[position]? = some column ∧ column.head.fallback = none ∧
      column.head.autoIncrement = leaf.field.head.autoIncrement := by
  rcases produces.exists_leaves among with ⟨below, expands, member⟩
  have optional := expands.optional mayBeAbsent leaf member
  rcases produces with ⟨others, expandsAll, found⟩
  obtain ⟨leaves, expandsToo, each⟩ := haveColumns_of_flatten flattened
  rw [expandsAll.unique expandsToo] at found
  obtain ⟨column, columnAt, settled, settles, same⟩ := exists_getElem?_of_forall₂ each found
  refine ⟨column, columnAt, ?_, ?_⟩
  · rw [same]
    exact if_pos optional
  · rw [same]
    cases settles <;> rfl

/-! ## Rows that lack parts -/

/-- A row that names no column of a list, or of an embedded field that may be empty, is
stored with empty cells for it, except that counters fill the leaves that have them. -/
theorem absent_parts_are_empty {linkage : Linkage} {schema : Schema} {table grown : Table}
    (flattened : linkage.flatten schema = .ok table.flat) {field : Field}
    (among : field ∈ schema.fields) (mayBeAbsent : field.MayBeAbsent)
    (reached : table.Reachable) {inputs : List (String × Cell)}
    (lacks : linkage.Lacks schema field table inputs)
    (accepted : table.addNamedRow inputs = .ok grown) :
    ∃ row, grown.rows = table.rows ++ [row] ∧ ∀ position leaf,
      linkage.Produces schema field position leaf →
        ∃ cell, row[position]? = some cell ∧ cell.isSome = leaf.field.head.autoIncrement := by
  rcases Table.addRow_eq_ok_iff.mp accepted with ⟨row, prepared, rfl⟩
  refine ⟨row, rfl, ?_⟩
  intro position leaf produces
  obtain ⟨column, columnAt, noFallback, counter⟩ :=
    produces.exists_column flattened among mayBeAbsent
  have ledgerAt := reached.sound.tracked position column columnAt
  obtain ⟨cell, cellAt, here⟩ := Table.prepareCell_of_prepareCells prepared columnAt ledgerAt
  rw [Table.align_of_unnamed (lacks position leaf produces)] at here
  have counted := Ledger.isSome_counter_ofCells column (table.columnCells position)
  refine ⟨cell, cellAt, ?_⟩
  rw [← counter]
  exact Table.isSome_of_prepareCell_none counted noFallback here

/-! ## A concrete part -/

/-- Inns with numbers from a counter. -/
def innSchema : Schema where
  name := "Inn"
  fields :=
    [.single
      { name := "id", typeText := "int32", autoIncrement := true
        shape := .scalar (.integer .bits32) none },
    .ofKind "name" (.scalar .text)]
  distinct := by decide +kernel

/-- The inn of a stay. -/
def innField : Field :=
  .single
    { name := "inn", typeText := "Inn", nullable := true, shape := .embedded (some "Inn") }

/-- Stays, perhaps at an inn. -/
def staySchema : Schema where
  name := "Stay"
  fields := [.ofKind "code" (.scalar (.integer .bits32)), innField]
  distinct := by decide +kernel

/-- The two schemas, linked without tables. -/
def stayLinkage : Linkage :=
  { empty with
    schemas := (Registry.empty.insert (.of "Stay") staySchema).insert (.of "Inn") innSchema }

/-- The leaves of the inn of a stay. -/
def innLeaves : List Leaf :=
  innSchema.fields.flatMap fun child =>
    [Leaf.here child].map (.inChild child.name innField.head.nullable)

theorem expands_innField : Expands stayLinkage innField innLeaves := by
  have found : stayLinkage.schema? "Inn" = some innSchema := by rfl
  have children : ∀ child ∈ innSchema.fields, Expands stayLinkage child [.here child] := by
    rw [innSchema, List.forall_mem_cons, List.forall_mem_singleton]
    exact ⟨.scalar rfl, .scalar rfl⟩
  exact .embedded rfl found children

theorem expandsAll_staySchema :
    ExpandsAll stayLinkage staySchema.fields
      (("code", .here (.ofKind "code" (.scalar (.integer .bits32)))) ::
        innLeaves.map ("inn", ·)) := by
  refine ⟨fun field => if field.kind = .embedded then innLeaves else [.here field], ?_, rfl⟩
  rw [staySchema, List.forall_mem_cons, List.forall_mem_singleton]
  exact ⟨.scalar rfl, expands_innField⟩

/-- All columns of a stay but the first are those of its inn. -/
theorem produces_innField_iff {position : Nat} {leaf : Leaf} :
    stayLinkage.Produces staySchema innField position leaf ↔
      ∃ index, position = index + 1 ∧ innLeaves[index]? = some leaf := by
  constructor
  · rintro ⟨leaves, expands, found⟩
    cases expands.unique expandsAll_staySchema
    cases position with
    | zero =>
        rw [List.getElem?_cons_zero, Option.some.injEq, Prod.mk.injEq] at found
        exact absurd found.1 (by decide)
    | succ index =>
        rw [List.getElem?_cons_succ, List.getElem?_map, Option.map_eq_some_iff] at found
        rcases found with ⟨other, otherAt, same⟩
        cases same
        exact ⟨index, rfl, otherAt⟩
  · rintro ⟨index, rfl, leafAt⟩
    refine ⟨_, expandsAll_staySchema, ?_⟩
    rw [List.getElem?_cons_succ, List.getElem?_map, leafAt]
    rfl

/-- A stay at no inn. -/
def campingInputs : List (String × Cell) :=
  [("code", some (.integer .bits32 ⟨40, by decide, by decide⟩))]

/-- A stay at no inn is accepted, with a number for the inn. -/
theorem exists_grown_of_camping :
    ∃ flat grown, stayLinkage.flatten staySchema = .ok flat ∧
      stayLinkage.Lacks staySchema innField (.ofSchema "Stays" flat) campingInputs ∧
      (Table.ofSchema "Stays" flat).addNamedRow campingInputs = .ok grown ∧
      grown.rows = [[some (.integer .bits32 ⟨40, by decide, by decide⟩),
        some (.integer .bits32 ⟨1, by decide, by decide⟩), none]] := by
  have computed : (do
      let flat ← (stayLinkage.flatten staySchema).toOption
      let grown ← ((Table.ofSchema "Stays" flat).addNamedRow campingInputs).toOption
      return (grown.rows, (Table.ofSchema "Stays" flat).column? "code")) =
      some ([[some (.integer .bits32 ⟨40, by decide, by decide⟩),
        some (.integer .bits32 ⟨1, by decide, by decide⟩), none]], some 0) := by
    decide +kernel
  simp only [Option.bind_eq_bind, Option.bind_eq_some_iff, toOption_eq_some_iff, Option.pure_def,
    Option.some.injEq, Prod.mk.injEq] at computed
  rcases computed with ⟨flat, flattened, grown, accepted, rows, code⟩
  refine ⟨flat, grown, flattened, ?_, accepted, rows⟩
  intro position leaf produces
  rcases produces_innField_iff.mp produces with ⟨index, rfl, _⟩
  rw [campingInputs, List.forall_mem_singleton, code]
  simp

theorem mayBeAbsent_innField : innField.MayBeAbsent :=
  .inr ⟨rfl, rfl⟩

theorem camping_parts_are_empty :
    ∃ flat grown row, stayLinkage.flatten staySchema = .ok flat ∧
      innField ∈ staySchema.fields ∧ innField.MayBeAbsent ∧
      (Table.ofSchema "Stays" flat).Reachable ∧
      stayLinkage.Lacks staySchema innField (.ofSchema "Stays" flat) campingInputs ∧
      (Table.ofSchema "Stays" flat).addNamedRow campingInputs = .ok grown ∧
      grown.rows = [row] ∧ ∀ position leaf,
        stayLinkage.Produces staySchema innField position leaf →
          ∃ cell, row[position]? = some cell ∧
            cell.isSome = leaf.field.head.autoIncrement := by
  rcases exists_grown_of_camping with ⟨flat, grown, flattened, lacks, accepted, _⟩
  have among : innField ∈ staySchema.fields := List.mem_cons_of_mem _ List.mem_cons_self
  have reached : (Table.ofSchema "Stays" flat).Reachable := .start "Stays" flat
  obtain ⟨row, rows, cells⟩ :=
    absent_parts_are_empty flattened among mayBeAbsent_innField reached lacks accepted
  exact ⟨flat, grown, row, flattened, among, mayBeAbsent_innField, reached, lacks, accepted,
    rows, cells⟩

/-- A part that a row lacks is not always stored as nothing: the inn of a stay at no inn gets
a number. -/
theorem absent_inn_gets_number :
    ¬∀ (linkage : Linkage) (schema : Schema) (table grown : Table) (field : Field)
        (inputs : List (String × Cell)) (row : Row),
      linkage.flatten schema = .ok table.flat → field ∈ schema.fields → field.MayBeAbsent →
      table.Reachable → linkage.Lacks schema field table inputs →
      table.addNamedRow inputs = .ok grown → grown.rows = table.rows ++ [row] →
      ∀ position leaf, linkage.Produces schema field position leaf →
        row[position]? = some none := by
  intro claim
  rcases exists_grown_of_camping with ⟨flat, grown, flattened, lacks, accepted, rows⟩
  have among : innField ∈ staySchema.fields := List.mem_cons_of_mem _ List.mem_cons_self
  have numbered := produces_innField_iff.mpr ⟨0, rfl, rfl⟩
  have empty := claim _ _ _ _ _ _ _ flattened among mayBeAbsent_innField (.start "Stays" flat)
    lacks accepted rows _ _ numbered
  cases empty

end Linkage

end Tabula
