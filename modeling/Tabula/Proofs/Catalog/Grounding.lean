import Tabula.Proofs.Catalog.Confluence
import Tabula.Proofs.Catalog.Refusal
import Tabula.Proofs.Definition.Reading

/-!
# What the fields of a catalog rest on

A document only writes names.  Settling makes an embedded schema of the name of a schema,
and a scalar field with a reference of a lookup or of the name of an enum.  The kinds that
are taken on the way stay what they are while the catalog grows.  So where documents are
all that was taken in, in whatever order, each reference still leads to a key of the kind
of its field and to a picked field of the kind that it remembers.
-/

namespace Tabula

namespace Catalog

/-! ## Shapes that a catalog bears out -/

/-- The shape is as it was written, or the catalog bears out what settling made of it. -/
inductive Grounds (catalog : Catalog) : Shape → Prop where
  | written {shape : Shape} (written : shape.Written) : Grounds catalog shape
  | embedded {name : String} {schema : Schema}
      (found : catalog.definition? name = some (.schema schema)) :
      Grounds catalog (.embedded (some name))
  | reference {reference : Reference} {keyKind : ScalarKind} {pickedKind : Kind}
      (refers : catalog.Refers reference keyKind pickedKind) :
      Grounds catalog (.scalar keyKind (some { reference with pickedKind := some pickedKind }))

/-- The catalog bears out all shapes along the field. -/
def GroundsField (catalog : Catalog) (field : Field) : Prop :=
  ∀ shape ∈ field.shapes, catalog.Grounds shape

theorem GroundsField.head {catalog : Catalog} {field : Field}
    (grounds : catalog.GroundsField field) : catalog.Grounds field.head.shape := by
  rw [GroundsField, Field.shapes_eq_cons, List.forall_mem_cons] at grounds
  exact grounds.1

theorem GroundsField.element {catalog : Catalog} {field element : Field}
    (grounds : catalog.GroundsField field) (found : field.element? = some element) :
    catalog.GroundsField element := by
  cases field with
  | single head => cases found
  | withElement head below =>
      cases found
      exact (List.forall_mem_cons.mp grounds).2

/-- The catalog bears out all fields of a schema; an enum is one that can be read. -/
def GroundsDefinition (catalog : Catalog) : Definition → Prop
  | .schema schema => ∀ field ∈ schema.fields, catalog.GroundsField field
  | .enumTable table => table.IsEnum

/-- The catalog bears out all of its definitions. -/
def IsGrounded (catalog : Catalog) : Prop :=
  ∀ definition ∈ catalog.definitions, catalog.GroundsDefinition definition

theorem IsGrounded.fields {catalog : Catalog} (grounded : catalog.IsGrounded) {schema : Schema}
    (member : schema ∈ catalog.schemas) : ∀ field ∈ schema.fields, catalog.GroundsField field :=
  grounded (.schema schema) (schema_mem_definitions member)

/-- What is as it was written rests on nothing. -/
theorem groundsDefinition_of_written (catalog : Catalog) {definition : Definition}
    (written : definition.Written) : catalog.GroundsDefinition definition := by
  cases definition with
  | schema schema =>
      intro field member shape among
      exact .written (written field member shape among)
  | enumTable table => exact written

section

variable {earlier later : Catalog}

/-- What an earlier catalog bears out, a later one bears out too. -/
theorem Informs.grounds (informs : Informs earlier later) {shape : Shape}
    (grounds : earlier.Grounds shape) : later.Grounds shape := by
  cases grounds with
  | written written => exact .written written
  | embedded found =>
      obtain ⟨_, foundLater, follows⟩ := informs.known found
      cases follows with
      | schema => exact .embedded foundLater
  | reference refers => exact .reference (informs.refers refers)

theorem Informs.groundsDefinition (informs : Informs earlier later) {definition : Definition}
    (grounds : earlier.GroundsDefinition definition) : later.GroundsDefinition definition := by
  cases definition with
  | schema schema =>
      intro field member shape among
      exact informs.grounds (grounds field member shape among)
  | enumTable table => exact grounds

end

/-! ## Settled fields -/

section

variable {catalog : Catalog} {schema : String} {field settled : Field}

/-- A new first shape that the catalog bears out leaves the field borne out. -/
theorem groundsField_of_shapes {shape : Shape} (grounds : catalog.GroundsField field)
    (here : catalog.Grounds shape) (swapped : settled.shapes = shape :: field.shapes.tail) :
    catalog.GroundsField settled := by
  rw [GroundsField, swapped, List.forall_mem_cons]
  exact ⟨here, fun other below => grounds other (List.mem_of_mem_tail below)⟩

/-- The columns of a table hold one value. -/
theorem exists_scalar_of_field? {table : Table} {name : String}
    (found : table.schema.field? name = some field) : ∃ kind, field.kind = .scalar kind := by
  rw [Schema.field?_eq_find?] at found
  have flat := List.all_eq_true.mp table.flat.flat field (List.mem_of_find?_eq_some found)
  obtain ⟨kind, _, shape, _⟩ := Field.exists_scalar_of_isFlat flat
  exact ⟨kind, congrArg Shape.kind shape⟩

/-- The lookup of an entry of an enum takes the kinds of the columns of the enum. -/
theorem grounds_enumReference {table : Table} (isEnum : table.IsEnum)
    (found : catalog.definition? table.name = some (.enumTable table)) :
    catalog.Grounds (.scalar (enumReference table).2 (some (enumReference table).1)) := by
  obtain ⟨key, keyFound⟩ := isEnum.hasName
  obtain ⟨picked, pickedFound⟩ := isEnum.hasValue
  obtain ⟨keyKind, scalar⟩ := exists_scalar_of_field? keyFound
  obtain ⟨pickedKind, scalarPicked⟩ := exists_scalar_of_field? pickedFound
  have reference : enumReference table =
      ({ table := table.name
         keyField := Definition.enumNameField
         pickedField := Definition.enumValueField
         pickedKind := some (.scalar pickedKind) }, keyKind) := by
    simp only [enumReference, keyFound, pickedFound, Option.map_some, scalar, scalarPicked]
  have rows : catalog.rowSchema? table.name = some table.schema := by
    rw [rowSchema?_eq_map, found]
    rfl
  have refers : catalog.Refers
      { table := table.name
        keyField := Definition.enumNameField
        pickedField := Definition.enumValueField } keyKind (.scalar pickedKind) :=
    ⟨rows, keyFound, pickedFound, scalar, scalarPicked, rfl⟩
  rw [reference]
  exact .reference refers

theorem groundsField_of_settleCandidate (indexed : catalog.Indexed)
    (enums : ∀ table ∈ catalog.enumTables, table.IsEnum)
    (grounds : catalog.GroundsField field)
    (accepted : catalog.settleCandidate schema field = .ok (some settled)) :
    catalog.GroundsField settled := by
  cases found : catalog.definition? field.head.typeText with
  | none =>
      rw [settleCandidate_of_none found] at accepted
      cases accepted
  | some definition =>
      rw [settleCandidate_of_definition? found] at accepted
      have member := mem_definitions_of_definition? found
      have named := indexed.definition?_name member
      cases definition with
      | schema target =>
          cases accepted
          exact groundsField_of_shapes grounds (.embedded named) (Field.shapes_mapHead _ field)
      | enumTable table =>
          rw [settleAs, map_some_eq_ok_iff, mapError_eq_ok_iff] at accepted
          have among : table ∈ catalog.enumTables := by
            rw [← filterMap_enumTable?_definitions, List.mem_filterMap]
            exact ⟨_, member, rfl⟩
          exact groundsField_of_shapes grounds (grounds_enumReference (enums table among) named)
            (Field.shapes_settleLookup accepted)

theorem groundsField_of_settleReference {reference : Reference}
    (grounds : catalog.GroundsField field)
    (accepted : catalog.settleReference schema field reference = .ok (some settled)) :
    catalog.GroundsField settled := by
  have decided : catalog.settleReference schema field reference ≠ .ok none := by
    simp [accepted]
  obtain ⟨keyKind, pickedKind, refers⟩ := refers_of_settleReference decided
  rw [settleReference_of_refers refers, map_some_eq_ok_iff, mapError_eq_ok_iff] at accepted
  exact groundsField_of_shapes grounds (.reference refers) (Field.shapes_settleLookup accepted)

theorem groundsField_of_settleHead (indexed : catalog.Indexed)
    (enums : ∀ table ∈ catalog.enumTables, table.IsEnum)
    (grounds : catalog.GroundsField field)
    (accepted : catalog.settleHead schema field = .ok (some settled)) :
    catalog.GroundsField settled := by
  unfold settleHead at accepted
  split at accepted
  · exact groundsField_of_settleCandidate indexed enums grounds accepted
  · exact groundsField_of_settleReference grounds accepted
  · cases accepted

/-- What settling makes of a field, the catalog that settles it bears out. -/
theorem groundsField_of_settleField (indexed : catalog.Indexed)
    (enums : ∀ table ∈ catalog.enumTables, table.IsEnum)
    (grounds : catalog.GroundsField field)
    (accepted : catalog.settleField schema field = .ok (some settled)) :
    catalog.GroundsField settled := by
  induction field generalizing settled with
  | single head => exact groundsField_of_settleHead indexed enums grounds accepted
  | withElement head element inductionHypothesis =>
      unfold settleField at accepted
      split at accepted
      · split at accepted
        · cases accepted
        · cases accepted
        · rename_i below here
          rw [map_some_eq_ok_iff, mapError_eq_ok_iff] at accepted
          obtain ⟨top, rest⟩ := List.forall_mem_cons.mp grounds
          rw [GroundsField, (Field.shapes_setElement accepted).2, List.forall_mem_cons]
          exact ⟨top, inductionHypothesis rest here⟩
      · exact groundsField_of_settleHead indexed enums grounds accepted

end

/-! ## Catalogs of documents -/

/-- Each definition of a catalog comes from one that the catalog bears out, its fields
settled or as they were. -/
theorem isGrounded_of_origins {catalog : Catalog} (indexed : catalog.Indexed)
    (origins : ∀ definition ∈ catalog.definitions, ∃ origin,
      catalog.GroundsDefinition origin ∧ origin.Follows catalog.Advances definition) :
    catalog.IsGrounded := by
  have enums : ∀ table ∈ catalog.enumTables, table.IsEnum := by
    intro table member
    obtain ⟨origin, grounds, follows⟩ :=
      origins (.enumTable table) (enumTable_mem_definitions member)
    cases follows with
    | enumTable => exact grounds
  intro definition member
  obtain ⟨origin, grounds, follows⟩ := origins definition member
  cases follows with
  | enumTable table => exact grounds
  | @schema before after follows =>
      intro field among
      obtain ⟨position, found⟩ := List.getElem?_of_mem among
      obtain ⟨start, startFound, advances⟩ :=
        exists_getElem?_of_forall₂ follows.symm.fields found
      have startGrounds := grounds start (List.mem_of_getElem? startFound)
      rcases advances with same | settled
      · rw [same]
        exact startGrounds
      · exact groundsField_of_settleField indexed enums startGrounds settled

/-- What a catalog has after definitions were accepted, it had before or was given. -/
theorem Sound.origin_of_addAll {catalog : Catalog} (sound : catalog.Sound)
    {definitions : List Definition}
    (accepted : (Catalog.addAll addDefinition catalog definitions).result = .ok ()) :
    ∀ definition ∈ (Catalog.addAll addDefinition catalog definitions).state.definitions,
      ∃ origin, (origin ∈ catalog.definitions ∨ origin ∈ definitions) ∧
        origin.Follows (Catalog.addAll addDefinition catalog definitions).state.Advances
          definition := by
  obtain ⟨grown, precedes, covers, _⟩ := sound.addAll accepted
  intro definition member
  have found := grown.indexed.definition?_name member
  have taken := grown.indexed.contains_iff.mpr (List.mem_map_of_mem member)
  rw [contains_addAll accepted, sound.indexed.contains_iff] at taken
  rcases taken with old | new
  · rcases List.mem_map.mp old with ⟨origin, among, same⟩
    obtain ⟨reached, foundHere, follows⟩ := precedes.covers sound.indexed origin among
    rw [definition?_congr _ same, found] at foundHere
    cases foundHere
    exact ⟨origin, .inl among, follows⟩
  · rcases List.mem_map.mp new with ⟨origin, among, same⟩
    obtain ⟨reached, foundHere, follows⟩ := covers origin among
    rw [definition?_congr _ same, found] at foundHere
    cases foundHere
    exact ⟨origin, .inr among, follows⟩

/-- The catalogs that reading documents and taking in other such catalogs lead to. -/
inductive Documented : Catalog → Prop where
  | empty : Documented empty
  | read {options : Options} {source : String} {catalog : Catalog}
      (accepted : (Catalog.read options source).result = .ok catalog) : Documented catalog
  | absorb {catalog other : Catalog} (documented : Documented catalog)
      (added : Documented other) : Documented (catalog.absorb other).state

theorem read_eq_ok_iff {options : Options} {source : String} {catalog : Catalog} :
    (read options source).result = .ok catalog ↔
      ∃ definitions, (Definition.readDocument options source).result = .ok definitions ∧
        (addAll addDefinition empty definitions).result = .ok () ∧
        (addAll addDefinition empty definitions).state = catalog := by
  rw [read, Traced.andThen_eq_ok_iff]
  apply exists_congr
  intro definitions
  apply and_congr_right
  intro _
  cases outcome : (addAll addDefinition empty definitions).result with
  | error refusal => simp [outcome]
  | ok done => simp [outcome]

theorem grounded_of_read {options : Options} {source : String} {catalog : Catalog}
    (accepted : (read options source).result = .ok catalog) :
    catalog.Sound ∧ catalog.IsGrounded := by
  obtain ⟨definitions, document, added, rfl⟩ := read_eq_ok_iff.mp accepted
  have written := Definition.forall_of_readDocument Definition.written_of_readDefinition document
  obtain ⟨sound, _⟩ := sound_empty.addAll added
  constructor
  · exact sound
  · apply isGrounded_of_origins sound.indexed
    intro definition member
    obtain ⟨origin, impossible | given, follows⟩ := sound_empty.origin_of_addAll added _ member
    · cases impossible
    · exact ⟨origin, groundsDefinition_of_written _ (written origin given), follows⟩

theorem grounded_of_absorb {catalog other : Catalog} (sound : catalog.Sound)
    (grounded : catalog.IsGrounded) (otherSound : other.Sound)
    (otherGrounded : other.IsGrounded) :
    (catalog.absorb other).state.Sound ∧ (catalog.absorb other).state.IsGrounded := by
  cases outcome : (catalog.absorb other).result with
  | error refusal =>
      rw [(absorb_of_refused outcome).1]
      exact ⟨sound, grounded⟩
  | ok done =>
      -- A schema may be taken in before the rows that its references lead to, so the catalogs
      -- on the way need not bear it out.  The last one does.
      have added := absorb_eq_ok_iff.mp outcome
      obtain ⟨grown, precedes, covers, _⟩ := sound.addAll added
      have otherPrecedes := otherSound.indexed.precedes covers
      rw [state_absorb outcome]
      constructor
      · exact grown
      · apply isGrounded_of_origins grown.indexed
        intro definition member
        obtain ⟨origin, old | new, follows⟩ := sound.origin_of_addAll added _ member
        · exact ⟨origin, precedes.informs.groundsDefinition (grounded origin old), follows⟩
        · exact ⟨origin, otherPrecedes.informs.groundsDefinition (otherGrounded origin new),
            follows⟩

/-- A catalog of documents is settled, and bears out all of its definitions. -/
theorem Documented.grounded {catalog : Catalog} (documented : Documented catalog) :
    catalog.Sound ∧ catalog.IsGrounded := by
  induction documented with
  | empty => exact ⟨sound_empty, List.forall_mem_nil _⟩
  | read accepted => exact grounded_of_read accepted
  | absorb _ _ here there => exact grounded_of_absorb here.1 here.2 there.1 there.2

end Catalog

end Tabula
