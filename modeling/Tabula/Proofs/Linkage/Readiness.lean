import Tabula.Proofs.Catalog.Documents
import Tabula.Proofs.Linkage.Consultation
import Tabula.Proofs.Linkage.Refusals

/-!
# Catalogs that are ready to link

A catalog of documents links without tables, even while fields wait: its definitions have
different names, and each enum is a table of its own over a schema of its own.  Where no
field waits, everything that a schema refers to is there.  A schema may then still embed
itself, look up what holds no single value, get two columns of one name or count in a column
without whole numbers, but nothing is missing, no fallback is refused and every column is
flat.
-/

namespace Tabula

/-! ## Refusals that remain -/

/-- The schema refers to nothing that is missing, and its fallbacks are fine: what is wrong
is how it is made. -/
inductive LinkError.IsStructural : LinkError → Prop where
  | nonScalarLookup (field table target : String) (kind : Kind) :
      IsStructural (.nonScalarLookup field table target kind)
  | cycle (schema : String) (path : List NameKey) : IsStructural (.cycle schema path)
  | duplicateField (schema field : String) :
      IsStructural (.refusedSchema (.duplicateField schema field))
  | invalidAutoIncrement (schema field : String) (kind : Kind) :
      IsStructural (.refusedSchema (.invalidAutoIncrement schema field kind))

/-! ## Fields that wait for nothing -/

/-- No head along a field that is not pending waits. -/
theorem Field.calm_of_isPending {field : Field} (calm : field.isPending = false) :
    ∀ shape ∈ field.shapes, shape.kind.isPending = false := by
  induction field with
  | single head => exact List.forall_mem_singleton.mpr calm
  | withElement head element inductionHypothesis =>
      rw [isPending, Bool.or_eq_false_iff] at calm
      exact List.forall_mem_cons.mpr ⟨calm.1, inductionHypothesis calm.2⟩

namespace Catalog

/-- The shapes that wait for nothing.  What is embedded is a schema of the catalog. -/
inductive Completes (catalog : Catalog) : Shape → Prop where
  | scalar (kind : ScalarKind) (reference : Option Reference) :
      Completes catalog (.scalar kind reference)
  | list (count : Nat) : Completes catalog (.list count)
  | embedded {name : String} {schema : Schema}
      (found : catalog.definition? name = some (.schema schema)) :
      Completes catalog (.embedded (some name))

theorem Grounds.completes {catalog : Catalog} {shape : Shape} (grounds : catalog.Grounds shape)
    (calm : shape.kind.isPending = false) : catalog.Completes shape := by
  cases grounds with
  | written written =>
      cases written with
      | scalar kind => exact .scalar kind none
      | list count => exact .list count
      | lookup => cases calm
      | unresolved => cases calm
  | embedded found => exact .embedded found
  | reference => exact .scalar _ _

/-- All shapes along the field wait for nothing. -/
def CompletesField (catalog : Catalog) (field : Field) : Prop :=
  ∀ shape ∈ field.shapes, catalog.Completes shape

theorem CompletesField.head {catalog : Catalog} {field : Field}
    (completes : catalog.CompletesField field) : catalog.Completes field.head.shape := by
  rw [CompletesField, Field.shapes_eq_cons, List.forall_mem_cons] at completes
  exact completes.1

theorem CompletesField.element {catalog : Catalog} {field element : Field}
    (completes : catalog.CompletesField field) (found : field.element? = some element) :
    catalog.CompletesField element := by
  cases field with
  | single head => cases found
  | withElement head below =>
      cases found
      exact (List.forall_mem_cons.mp completes).2

/-- Where no schema is pending, no field waits for anything. -/
theorem IsGrounded.completesField {catalog : Catalog} (grounded : catalog.IsGrounded)
    (indexed : catalog.Indexed) (calm : catalog.isPending = false) {schema : Schema}
    (member : schema ∈ catalog.schemas) :
    ∀ field ∈ schema.fields, catalog.CompletesField field := by
  intro field among shape inside
  refine (grounded.fields member field among shape inside).completes ?_
  apply Field.calm_of_isPending _ shape inside
  rw [← Bool.not_eq_true]
  intro waits
  obtain ⟨position, found⟩ := List.getElem?_of_mem member
  have pending := indexed.mem_pending
    (isPendingAt_iff.mpr ⟨schema, found, List.any_eq_true.mpr ⟨field, among, waits⟩⟩)
  have nothing : catalog.pending = [] := by
    simpa [isPending] using calm
  rw [nothing] at pending
  cases pending

end Catalog

namespace Linkage

section

variable {linkage : Linkage} {catalog : Catalog}

/-- No field below one that waits for nothing waits for anything. -/
theorem Below.completesField (knows : linkage.Knows catalog)
    (complete : ∀ schema ∈ catalog.schemas, ∀ field ∈ schema.fields,
      catalog.CompletesField field)
    {field below : Field} (leads : linkage.Below field below)
    (completes : catalog.CompletesField field) : catalog.CompletesField below := by
  induction leads with
  | here => exact completes
  | element _ elementFound _ inductionHypothesis =>
      exact inductionHypothesis (completes.element elementFound)
  | child shape schemaFound member _ inductionHypothesis =>
      have here := completes.head
      rw [shape] at here
      cases here with
      | embedded found =>
          cases (knows _ _ found).symm.trans schemaFound
          exact inductionHypothesis
            (complete _ (Catalog.mem_schemas_of_definition? found) _ member)

/-- A field that waits for nothing is refused only for how it is made. -/
theorem RefusesHead.isStructural (knows : linkage.Knows catalog) {field : Field}
    (completes : catalog.CompletesField field) {refusal : LinkError}
    (refuses : linkage.RefusesHead field refusal) : refusal.IsStructural := by
  have here := completes.head
  cases refuses with
  | unresolved _ shape =>
      rw [shape] at here
      cases here
  | lookup shape =>
      rw [shape] at here
      cases here
  | picked => exact .nonScalarLookup _ _ _ _
  | missing _ shape absent =>
      rw [shape] at here
      cases here with
      | embedded found => cases (knows _ _ found).symm.trans absent
  | cycle => exact .cycle _ _

theorem structural_of_flatten (knows : linkage.Knows catalog)
    (complete : ∀ schema ∈ catalog.schemas, ∀ field ∈ schema.fields,
      catalog.CompletesField field)
    {schema : Schema} (member : schema ∈ catalog.schemas) {refusal : LinkError}
    (refused : linkage.flatten schema = .error refusal) : refusal.IsStructural := by
  cases refusesFlattening_of_flatten refused with
  | below refuses =>
      obtain ⟨field, inside, below, leads, refuses⟩ := refuses
      exact refuses.isStructural knows
        (leads.completesField knows complete (complete schema member field inside))
  | duplicate => exact .duplicateField _ _
  | miscounted => exact .invalidAutoIncrement _ _ _

end

/-! ## Linking without tables -/

theorem exists_registered_of_documented {catalog : Catalog} (documented : catalog.Documented) :
    ∃ base registered, catalog.schemas.foldlM registerSchema empty = .ok base ∧
      catalog.enumTables.foldlM registerTable base = .ok registered := by
  obtain ⟨sound, grounded⟩ := documented.grounded
  have names := nodup_name_rows sound.indexed grounded
  rw [List.map_append] at names
  have fresh : ∀ schema ∈ catalog.schemas, empty.schemas.find? (.of schema.name) = none :=
    fun _ _ => rfl
  obtain ⟨base, schemasIn⟩ := exists_registerSchemas fresh names.of_append_left
  have distinct := sound.indexed.distinct
  rw [Catalog.definitions, List.map_append, List.map_map] at distinct
  obtain ⟨registered, tablesIn⟩ :=
    (registered_empty.registerSchemas schemasIn).exists_registerTables_iff.mpr
      distinct.of_append_left
  exact ⟨base, registered, schemasIn, tablesIn⟩

/-- An enum of documents is the only one over its schema. -/
theorem tablesOver_enumTables {catalog : Catalog} (documented : catalog.Documented)
    {table : Table} (member : table ∈ catalog.enumTables) :
    tablesOver catalog.enumTables (.of table.schema.name) = [table] := by
  obtain ⟨sound, grounded⟩ := documented.grounded
  have names := nodup_name_rows sound.indexed grounded
  rw [List.map_append, List.map_map] at names
  exact tablesOver_eq_singleton names.of_append_right member

/-- Its schema is registered for it, as no other definition has the name. -/
theorem find?_schemas_of_documented {catalog : Catalog} (documented : catalog.Documented)
    {base registered : Linkage} (schemasIn : catalog.schemas.foldlM registerSchema empty = .ok base)
    (tablesIn : catalog.enumTables.foldlM registerTable base = .ok registered)
    {table : Table} (member : table ∈ catalog.enumTables) :
    registered.schemas.find? (.of table.schema.name) = some table.schema := by
  obtain ⟨sound, grounded⟩ := documented.grounded
  rw [find?_schemas_of_registered schemasIn tablesIn]
  exact find?_of_nodup_map (nodup_name_rows sound.indexed grounded)
    (List.mem_append_right _ (List.mem_map_of_mem member))

/-- The rows of the enums of documents obey their schemas. -/
theorem reachable_of_documented {catalog : Catalog} (documented : catalog.Documented)
    {table : Table} (member : table ∈ catalog.enumTables) : table.Reachable := by
  obtain ⟨_, _, read⟩ := documented.exists_read member
  obtain ⟨_, _, _, _, _, reached, _⟩ := Definition.lists_of_readEnumTable read
  exact reached

/-- A catalog of documents links without tables, whatever its fields wait for. -/
theorem exists_link_of_documented {catalog : Catalog} (documented : catalog.Documented) :
    ∃ linkage, (ofCatalog catalog []).result = .ok linkage := by
  obtain ⟨base, registered, schemasIn, tablesIn⟩ := exists_registered_of_documented documented
  have known := (registered_empty.registerSchemas schemasIn).registerTables tablesIn
  rw [List.nil_append] at known
  have merges : ∃ merged,
      (registered.mergeAll .empty registered.schemas.entries).result = .ok merged := by
    rw [exists_mergeAll_iff]
    intro key schema entry partials filed
    obtain ⟨table, among⟩ := List.exists_mem_of_ne_nil _ ((known.partialsAt _ _).mp filed).1
    rw [tablesOver, List.mem_filter, decide_eq_true_eq] at among
    rcases among with ⟨member, rfl⟩
    have only := tablesOver_enumTables documented member
    have found := find?_schemas_of_documented documented schemasIn tablesIn member
    cases (Registry.find?_eq_some_iff.mpr entry).symm.trans found
    refine ⟨_, (known.mergedTable_eq_ok_iff filed (registered.flatten_flat table.flat)
      ?_ ?_).mpr ⟨?_, rfl⟩⟩
    · rw [only, List.forall_mem_singleton]
      exact (reachable_of_documented documented member).sound.obeys
    · rw [only, List.forall_mem_singleton]
    · rw [only]
      intro first firstMember second secondMember different
      rw [List.mem_singleton] at firstMember secondMember
      exact absurd (firstMember.trans secondMember.symm) different
  rcases merges with ⟨merged, mergedAll⟩
  refine ⟨{ registered with merged }, link_eq_ok_iff.mpr ?_⟩
  rw [List.append_nil]
  exact ⟨base, registered, merged, schemasIn, tablesIn, mergedAll, rfl⟩

/-- A catalog of documents links without tables.  When none of its schemas is pending, its
schemas are refused for their structure only: not for a type that nothing has claimed, for a
schema or a field that is not there, for a fallback, or for not being flat. -/
theorem documents_link_and_lack_nothing {catalog : Catalog} (documented : catalog.Documented) :
    ∃ linkage, (ofCatalog catalog []).result = .ok linkage ∧
      (catalog.isPending = false → ∀ schema ∈ catalog.schemas, ∀ refusal,
        linkage.flatSchema schema.name = .error refusal →
          refusal.IsStructural ∧
          (∀ field typeText, refusal ≠ .unresolved field typeText) ∧
          (∀ target field, refusal ≠ .schemaNotFound target field) ∧
          (∀ target field, refusal ≠ .fieldNotFound target field) ∧
          (∀ field literal cause,
            refusal ≠ .refusedSchema (.invalidFallback field literal cause)) ∧
          ∀ name, refusal ≠ .refusedSchema (.notFlat name)) := by
  obtain ⟨linkage, linked⟩ := exists_link_of_documented documented
  refine ⟨linkage, linked, ?_⟩
  intro calm schema member refusal refused
  obtain ⟨sound, grounded⟩ := documented.grounded
  have knows := knows_of_ofCatalog sound.indexed grounded linked
  rw [knows.flatSchema_eq sound.indexed member] at refused
  have complete : ∀ other ∈ catalog.schemas, ∀ field ∈ other.fields,
      catalog.CompletesField field :=
    fun _ among => grounded.completesField sound.indexed calm among
  have structural := structural_of_flatten knows complete member refused
  refine ⟨structural, ?_⟩
  cases structural <;> simp

/-! ## Concrete documents -/

/-- Sailors have ranks, and a knot ends in itself. -/
def knotDocument : String :=
  "[\x7b\"name\": \"Sailor\", \"fields\": \x7b\"ranks\": \"list<Rank, 2>\"\x7d\x7d,
    \x7b\"name\": \"Knot\", \"fields\": \x7b\"end\": \"Knot\"\x7d\x7d,
    \x7b\"enum Rank\": [\"Mate\", \"Cook = 4\"]\x7d]"

theorem knots_link_and_lack_nothing :
    ∃ catalog linkage refusal, catalog.Documented ∧
      (ofCatalog catalog []).result = .ok linkage ∧ catalog.isPending = false ∧
      linkage.flatSchema "Knot" = .error refusal ∧ refusal.IsStructural ∧
      (∀ target field, refusal ≠ .schemaNotFound target field) ∧
      ∀ name, refusal ≠ .refusedSchema (.notFlat name) := by
  have computed : (do
      let catalog ← (Catalog.read { allowComments := false } knotDocument).result.toOption
      let linkage ← (ofCatalog catalog []).result.toOption
      let knot ← catalog.schemas[1]?
      return ((knot.name, catalog.isPending), (linkage.flatSchema "Knot").toOption.isNone)) =
      some (("Knot", false), true) := by
    decide +kernel
  simp only [Option.bind_eq_bind, Option.bind_eq_some_iff, toOption_eq_some_iff, Option.pure_def,
    Option.some.injEq, Prod.mk.injEq] at computed
  rcases computed with ⟨catalog, read, linkage, linked, knot, knotAt, ⟨name, calm⟩, refused⟩
  have documented := Catalog.Documented.read read
  obtain ⟨other, otherLinked, complete⟩ := documents_link_and_lack_nothing documented
  cases linked.symm.trans otherLinked
  cases outcome : linkage.flatSchema "Knot" with
  | ok flat =>
      rw [outcome] at refused
      cases refused
  | error refusal =>
      rw [← name] at outcome
      obtain ⟨structural, _, found, _, _, flat⟩ :=
        complete calm knot (List.mem_of_getElem? knotAt) refusal outcome
      rw [name] at outcome
      exact ⟨catalog, linkage, refusal, documented, linked, calm, outcome, structural, found,
        flat⟩

end Linkage

end Tabula
