import Tabula.Proofs.Definition.Reading
import Tabula.Proofs.Table.Reinsertion
import Tabula.Proofs.Value.Narrowing

/-!
# What an enum holds

An enum that is read is a table without unique columns or counters, so its rows are the
entries of its body, one after another, each with its value in the width of the column.
No two entries have one name but for case: reading them checks each name against those that
came before.
-/

namespace Tabula

namespace Definition

/-! ## Entries -/

/-- The tree is a text that reads as the line. -/
def IsLine (enum : String) (tree : Json) (line : EnumLine) : Prop :=
  ∃ written, tree = .text written ∧ readEnumLine enum written = .ok line

/-- The entries of lines, one after another.  A line that gives no value takes the number
that comes next. -/
def numberLines (next : Long) : List EnumLine → List EnumEntry
  | [] => []
  | line :: lines =>
    let value := line.value.getD next
    ⟨line.name, value, line.comment⟩ :: numberLines value.next lines

/-- The entries may stand behind those whose names were seen: no value is negative, and no
two names are the same but for case. -/
structure MayFollow (seen : NameSet) (entries : List EnumEntry) : Prop where
  nonnegative : ∀ entry ∈ entries, 0 ≤ entry.value.value
  distinct : (entries.map (NameKey.of ·.name)).Nodup
  unseen : ∀ entry ∈ entries, seen.contains entry.name = false

theorem mayFollow_nil (seen : NameSet) : MayFollow seen [] :=
  ⟨List.forall_mem_nil _, List.nodup_nil, List.forall_mem_nil _⟩

/-- A name that the others may not have is as good as seen before them. -/
theorem mayFollow_cons_iff {seen : NameSet} {entry : EnumEntry} {entries : List EnumEntry} :
    MayFollow seen (entry :: entries) ↔
      0 ≤ entry.value.value ∧ seen.contains entry.name = false ∧
        MayFollow (seen.insert entry.name) entries := by
  constructor
  · rintro ⟨nonnegative, distinct, unseen⟩
    rw [List.forall_mem_cons] at nonnegative unseen
    rw [List.map_cons, List.nodup_cons] at distinct
    refine ⟨nonnegative.1, unseen.1, nonnegative.2, distinct.2, ?_⟩
    intro other among
    have apart : NameKey.of entry.name ≠ NameKey.of other.name := fun same =>
      distinct.1 (List.mem_map.mpr ⟨other, among, same.symm⟩)
    rw [NameSet.contains_insert, unseen.2 other among, decide_eq_false apart, Bool.or_false]
  · rintro ⟨nonnegative, fresh, further⟩
    have others : ∀ other ∈ entries,
        seen.contains other.name = false ∧ NameKey.of entry.name ≠ NameKey.of other.name := by
      intro other among
      have absent := further.unseen other among
      rw [NameSet.contains_insert, Bool.or_eq_false_iff, decide_eq_false_iff_not] at absent
      exact absent
    refine ⟨List.forall_mem_cons.mpr ⟨nonnegative, further.nonnegative⟩, ?_,
      List.forall_mem_cons.mpr ⟨fresh, fun other among => (others other among).1⟩⟩
    rw [List.map_cons, List.nodup_cons]
    refine ⟨?_, further.distinct⟩
    intro repeated
    rcases List.mem_map.mp repeated with ⟨other, among, same⟩
    exact (others other among).2 same.symm

/-- The entries that are read are those of the lines, as long as they may follow each other. -/
theorem readEnumEntries_eq_ok_iff {enum : String} {seen : NameSet} {next : Long}
    {trees : List Json} {entries : List EnumEntry} :
    readEnumEntries enum seen next trees = .ok entries ↔
      ∃ lines, List.Forall₂ (IsLine enum) trees lines ∧ entries = numberLines next lines ∧
        MayFollow seen entries := by
  induction trees generalizing seen next entries with
  | nil =>
      constructor
      · intro accepted
        cases accepted
        exact ⟨[], .nil, rfl, mayFollow_nil seen⟩
      · rintro ⟨lines, each, rfl, _⟩
        cases each
        rfl
  | cons tree trees inductionHypothesis =>
      constructor
      · intro accepted
        unfold readEnumEntries at accepted
        split at accepted
        · cases accepted
        · rename_i written isText
          rw [bind_eq_ok_iff] at accepted
          rcases accepted with ⟨line, lineRead, rest⟩
          dsimp only at rest
          split at rest
          · cases rest
          · rename_i nonnegative
            split at rest
            · cases rest
            · rename_i fresh
              simp only [bind_eq_ok_iff, pure_eq_ok_iff] at rest
              rcases rest with ⟨others, further, rfl⟩
              obtain ⟨lines, each, rfl, mayFollow⟩ := inductionHypothesis.mp further
              refine ⟨line :: lines, .cons ⟨written, ?_, lineRead⟩ each, rfl, ?_⟩
              · exact Json.asText?_eq_some_iff.mp isText
              · exact mayFollow_cons_iff.mpr
                  ⟨Int.not_lt.mp nonnegative, Bool.eq_false_iff.mpr fresh, mayFollow⟩
      · rintro ⟨_, each, rfl, mayFollow⟩
        cases each with
        | @cons _ line _ lines here each =>
            rcases here with ⟨written, rfl, lineRead⟩
            rw [numberLines, mayFollow_cons_iff] at mayFollow
            obtain ⟨nonnegative, fresh, further⟩ := mayFollow
            have others := inductionHypothesis.mpr ⟨lines, each, rfl, further⟩
            have notNegative : ¬(line.value.getD next).value < 0 := Int.not_lt.mpr nonnegative
            simp only [readEnumEntries, Json.asText?, lineRead, bind_eq_ok_iff, Except.ok.injEq,
              exists_eq_left', if_neg notNegative, fresh, Bool.false_eq_true, if_false, others,
              pure_eq_ok_iff]
            rfl

end Definition

/-! ## Rows -/

/-- The columns of an enum with values of a width. -/
def enumFields (width : IntegerWidth) : List Field :=
  [.ofKind Definition.enumNameField (.scalar .text),
    .ofKind Definition.enumValueField (.scalar (.integer width)),
    .ofKind Definition.enumCommentField (.scalar .text)]

theorem Schema.positions_of_enumFields {schema : Schema} {width : IntegerWidth}
    (fields : schema.fields = enumFields width) :
    schema.position? Definition.enumNameField = some 0 ∧
      schema.position? Definition.enumValueField = some 1 := by
  have nameAt : schema.fields[0]? =
      some (.ofKind Definition.enumNameField (.scalar .text)) := by
    rw [fields]
    rfl
  have valueAt : schema.fields[1]? =
      some (.ofKind Definition.enumValueField (.scalar (.integer width))) := by
    rw [fields]
    rfl
  have name := position?_of_getElem? nameAt
  have value := position?_of_getElem? valueAt
  rw [Field.name_ofKind] at name value
  exact ⟨name, value⟩

/-- The row holds the entry, its value in the width of the column. -/
def EnumEntry.IsStored (width : IntegerWidth) (entry : EnumEntry) (row : Row) : Prop :=
  ∃ number : Whole width, number.value = entry.value.value ∧
    row = [some (.text entry.name), some (.integer width number), some (.text entry.comment)]

/-- The table holds the entries in order, with values of a width. -/
structure Table.Lists (table : Table) (entries : List EnumEntry) (width : IntegerWidth) :
    Prop where
  named : table.schema.name = table.name
  fields : table.flat.fields = enumFields width
  distinct : (entries.map (NameKey.of ·.name)).Nodup
  rows : List.Forall₂ (EnumEntry.IsStored width) entries table.rows

namespace Table

/-- A column that is neither unique nor counted stores what it is given in its own kind. -/
theorem prepareCell_plain_eq_ok_iff {table name : String} {kind : ScalarKind} {value : Value}
    {cell : Cell} :
    prepareCell table (.ofKind name (.scalar kind)) ⟨none, none⟩ (some value) = .ok cell ↔
      ∃ stored, value.convert kind = .ok stored ∧ cell = some stored := by
  have column : (Field.ofKind name (.scalar kind)).kind = .scalar kind := rfl
  have only : filled (.ofKind name (.scalar kind)) ⟨none, none⟩ (some value) = some value := rfl
  rw [prepareCell, only]
  simp only [column, Value.coerce_scalar]
  cases value.convert kind with
  | error refusal => simp
  | ok stored => simp [Ledger.holds, eq_comm (b := cell)]

/-- The row that is stored for an entry is the entry in the width of the column. -/
theorem prepareCells_entry_eq_ok_iff {name : String} {width : IntegerWidth} {entry : EnumEntry}
    {row : Row} :
    prepareCells name (enumFields width) (List.replicate 3 ⟨none, none⟩)
      (Definition.EnumEntry.toRow entry) = .ok row ↔ entry.IsStored width row := by
  have text (content : String) : (Value.text content).convert .text = .ok (.text content) :=
    Value.convert_self _
  simp only [enumFields, Definition.EnumEntry.toRow, List.replicate, prepareCells, List.head?_cons,
    Option.getD_some, List.tail_cons, bind_eq_ok_iff, pure_eq_ok_iff,
    prepareCell_plain_eq_ok_iff, text, Except.ok.injEq, Value.convert_long_eq_ok_iff]
  constructor
  · rintro ⟨_, ⟨_, rfl, rfl⟩, _, ⟨_, ⟨_, ⟨number, same, rfl⟩, rfl⟩, _,
      ⟨_, ⟨_, rfl, rfl⟩, _, rfl, rfl⟩, rfl⟩, rfl⟩
    exact ⟨number, same, rfl⟩
  · rintro ⟨number, same, rfl⟩
    exact ⟨_, ⟨_, rfl, rfl⟩, _, ⟨_, ⟨_, ⟨number, same, rfl⟩, rfl⟩, _,
      ⟨_, ⟨_, rfl, rfl⟩, _, rfl, rfl⟩, rfl⟩, rfl⟩

/-- The columns of an enum remember nothing of a row that is stored. -/
theorem plain_storeRow {table : Table} (plain : table.ledgers = List.replicate 3 ⟨none, none⟩)
    {width : IntegerWidth} {entry : EnumEntry} {row : Row} (isStored : entry.IsStored width row) :
    (table.storeRow row).ledgers = List.replicate 3 ⟨none, none⟩ := by
  rcases isStored with ⟨number, _, rfl⟩
  rw [storeRow, plain]
  rfl

/-- The entries of an enum are stored exactly when each of them has a row, and the rows are
stored in the order of the entries. -/
theorem addEach_entries_eq_ok_iff {table reached : Table} {width : IntegerWidth}
    {entries : List EnumEntry} (fields : table.flat.fields = enumFields width)
    (plain : table.ledgers = List.replicate 3 ⟨none, none⟩) :
    table.addEach (entries.map Definition.EnumEntry.toRow) = .ok reached ↔
      ∃ rows, List.Forall₂ (EnumEntry.IsStored width) entries rows ∧
        reached = table.storeRows rows := by
  induction entries generalizing table with
  | nil =>
      constructor
      · intro stored
        cases stored
        exact ⟨[], .nil, rfl⟩
      · rintro ⟨_, ⟨⟩, rfl⟩
        rfl
  | cons entry entries inductionHypothesis =>
      have further {row : Row} (isStored : entry.IsStored width row) :
          (table.storeRow row).addEach (entries.map Definition.EnumEntry.toRow) = .ok reached ↔
            ∃ rows, List.Forall₂ (EnumEntry.IsStored width) entries rows ∧
              reached = (table.storeRow row).storeRows rows :=
        inductionHypothesis fields (plain_storeRow plain isStored)
      have prepare : table.prepareRow (Definition.EnumEntry.toRow entry) =
          prepareCells table.name (enumFields width) (List.replicate 3 ⟨none, none⟩)
            (Definition.EnumEntry.toRow entry) := by
        rw [prepareRow, fields, plain]
      rw [List.map_cons, addEach_cons, bind_eq_ok_iff]
      constructor
      · rintro ⟨next, here, stored⟩
        rcases addRow_eq_ok_iff.mp here with ⟨row, prepared, rfl⟩
        have isStored := prepareCells_entry_eq_ok_iff.mp (prepare ▸ prepared)
        obtain ⟨rows, each, rfl⟩ := (further isStored).mp stored
        exact ⟨row :: rows, .cons isStored each, rfl⟩
      · rintro ⟨_, each, rfl⟩
        cases each with
        | @cons _ row _ rows isStored each =>
            have prepared := prepare.trans (prepareCells_entry_eq_ok_iff.mpr isStored)
            exact ⟨table.storeRow row, addRow_eq_ok_iff.mpr ⟨row, prepared, rfl⟩,
              (further isStored).mpr ⟨rows, each, rfl⟩⟩

end Table

/-! ## Enums that are read -/

namespace Definition

/-- The body of an enum is an array of lines, whose entries may follow each other and whose
values fit the kind that is declared, if one is. -/
theorem readEnumParts_eq_ok_iff {header : EnumHeader} {body : Json} {entries : List EnumEntry}
    {width : IntegerWidth} :
    readEnumParts header body = .ok (entries, width) ↔
      ∃ declared trees lines, declaredWidth header.name header.kind = .ok declared ∧
        body = .array trees ∧ List.Forall₂ (IsLine header.name) trees lines ∧
        entries = numberLines (.ofBool .bits64 false) lines ∧ MayFollow .empty entries ∧
        enumWidth header.name declared (largestValue entries) = .ok width := by
  rw [readEnumParts, bind_eq_ok_iff]
  constructor
  · rintro ⟨declared, declares, accepted⟩
    split at accepted
    · rename_i trees
      simp only [bind_eq_ok_iff, pure_eq_ok_iff, Prod.mk.injEq] at accepted
      rcases accepted with ⟨_, read, _, fits, rfl, rfl⟩
      obtain ⟨lines, each, numbered, mayFollow⟩ := readEnumEntries_eq_ok_iff.mp read
      exact ⟨declared, trees, lines, declares, rfl, each, numbered, mayFollow, fits⟩
    · cases accepted
  · rintro ⟨declared, trees, lines, declares, rfl, each, numbered, mayFollow, fits⟩
    refine ⟨declared, declares, ?_⟩
    simp only [bind_eq_ok_iff, pure_eq_ok_iff]
    exact ⟨entries, readEnumEntries_eq_ok_iff.mpr ⟨lines, each, numbered, mayFollow⟩, width, fits,
      rfl⟩

/-- The table has the columns of an enum, and nothing was stored in it yet. -/
structure IsEmptyEnum (table : Table) (width : IntegerWidth) : Prop where
  named : table.schema.name = table.name
  reachable : table.Reachable
  fields : table.flat.fields = enumFields width
  plain : table.ledgers = List.replicate 3 ⟨none, none⟩
  empty : table.rows = []

theorem isEmptyEnum_of_emptyEnumTable {header : EnumHeader} {width : IntegerWidth}
    {table : Table} (accepted : emptyEnumTable header width = .ok table) :
    IsEmptyEnum table width := by
  have named := (isEnum_of_emptyEnumTable accepted).2.named
  simp only [emptyEnumTable, enumSchema, Schema.ofFields, bind_eq_ok_iff, mapError_eq_ok_iff,
    pure_eq_ok_iff] at accepted
  rcases accepted with ⟨schema, added, flat, flattened, rfl⟩
  have fields : flat.fields = enumFields width := by
    rw [FlatSchema.fields, FlatSchema.schema_of_ofSchema flattened]
    exact (Schema.addFields_eq_ok added).2
  refine ⟨named, .start _ _, fields, ?_, rfl⟩
  rw [Table.ofSchema, fields]
  rfl

/-- The columns of an enum always make up a table. -/
theorem exists_emptyEnumTable (header : EnumHeader) (width : IntegerWidth) :
    ∃ table, emptyEnumTable header width = .ok table := by
  have distinct : (((Schema.named header.name).fields ++ enumFields width).map
      (NameKey.of ·.name)).Nodup := by
    change [NameKey.of enumNameField, NameKey.of enumValueField,
      NameKey.of enumCommentField].Nodup
    decide +kernel
  obtain ⟨schema, added⟩ := Schema.exists_addFields distinct
  have fields : schema.fields = enumFields width := (Schema.addFields_eq_ok added).2
  have isFlat : schema.isFlat = true := by
    rw [Schema.isFlat, fields]
    rfl
  have uncounted : ∀ field ∈ schema.fields, field.head.autoIncrement = false := by
    rw [fields]
    simp only [enumFields, List.forall_mem_cons]
    exact ⟨rfl, rfl, rfl, List.forall_mem_nil _⟩
  have accepted := FlatSchema.ofSchema_schema
    { schema := { schema with description := header.description.getD "" }
      flat := isFlat
      counted := fun field member automatic => absurd automatic (by simp [uncounted field member]) }
  simp only [emptyEnumTable, enumSchema, Schema.ofFields, bind_eq_ok_iff, mapError_eq_ok_iff,
    pure_eq_ok_iff]
  exact ⟨_, schema, added, _, accepted, rfl⟩

/-- An enum is read when its header and its body are, and its entries are stored one after
another. -/
theorem readEnumTable_eq_ok_iff {header : String} {body : Json} {table : Table} :
    (readEnumTable header body).result = .ok table ↔
      ∃ parts entries width start, readEnumHeader header = .ok parts ∧
        readEnumParts parts body = .ok (entries, width) ∧
        emptyEnumTable parts width = .ok start ∧
        start.addEach (entries.map EnumEntry.toRow) = .ok table := by
  simp only [readEnumTable, Traced.bind_eq_ok_iff, Traced.result_ofResult, Traced.result_record,
    Traced.result_pure, Except.ok.injEq, mapError_eq_ok_iff]
  constructor
  · rintro ⟨parts, headerRead, ⟨entries, width⟩, bodyRead, start, made, count, added, _, _, rfl⟩
    have aligned := (isEmptyEnum_of_emptyEnumTable made).reachable.aligned
    rcases Table.addRows_cases aligned (entries.map EnumEntry.toRow) with
      ⟨refusal, refused, _⟩ | ⟨_, stored⟩
    · cases refused.symm.trans added
    · exact ⟨parts, entries, width, start, headerRead, bodyRead, made, stored⟩
  · rintro ⟨parts, entries, width, start, headerRead, bodyRead, made, stored⟩
    obtain ⟨added, state⟩ := Table.addRows_of_addEach_eq_ok stored
    exact ⟨parts, headerRead, (entries, width), bodyRead, start, made, _, added, (), trivial, state⟩

/-- An enum that is read holds the entries of its body. -/
theorem lists_of_readEnumTable {header : String} {body : Json} {table : Table}
    (accepted : (readEnumTable header body).result = .ok table) :
    ∃ parts entries width, readEnumHeader header = .ok parts ∧
      readEnumParts parts body = .ok (entries, width) ∧ table.Reachable ∧
      table.Lists entries width := by
  obtain ⟨parts, entries, width, start, headerRead, bodyRead, made, stored⟩ :=
    readEnumTable_eq_ok_iff.mp accepted
  obtain ⟨_, _, _, _, _, _, _, mayFollow, _⟩ := readEnumParts_eq_ok_iff.mp bodyRead
  have isEmpty := isEmptyEnum_of_emptyEnumTable made
  obtain ⟨rows, each, same⟩ :=
    (Table.addEach_entries_eq_ok_iff isEmpty.fields isEmpty.plain).mp stored
  have reached : table.Reachable := by
    rw [← (Table.addRows_of_addEach_eq_ok stored).2]
    exact isEmpty.reachable.step (.addRows _)
  rw [Table.storeRows_eq, isEmpty.empty, List.nil_append] at same
  subst same
  exact ⟨parts, entries, width, headerRead, bodyRead, reached, isEmpty.named, isEmpty.fields,
    mayFollow.distinct, each⟩

end Definition

end Tabula
