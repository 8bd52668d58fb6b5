import Tabula.Proofs.Catalog.Refusal

/-!
# Histories of catalogs

A catalog is reachable when some sequence of additions and settlings, refused ones among
them, leads to it from the catalog without definitions.  Every operation leaves a
reachable catalog at rest: its index files exactly its definitions, its pending positions
are exactly those of the schemas that wait, and no field waits for anything that is
there.  So settling it once more does nothing.
-/

namespace Tabula

namespace Catalog

/-! ## Fields that can be settled -/

/-- The field waits for something that the catalog has: a definition of the name that is
its type, or the scalar key and the picked field of its lookup.  A list waits with its
elements. -/
inductive CanSettle (catalog : Catalog) : Field → Prop where
  | candidate {field : Field} {definition : Definition}
      (shape : field.head.shape = .unresolved)
      (found : catalog.definition? field.head.typeText = some definition) :
      CanSettle catalog field
  | lookup {field : Field} {reference : Reference} {target : Schema} {key picked : Field}
      {keyKind : ScalarKind} (shape : field.head.shape = .lookup (some reference))
      (rows : catalog.rowSchema? reference.table = some target)
      (keyFound : target.field? reference.keyField = some key)
      (pickedFound : target.field? reference.pickedField = some picked)
      (scalar : key.kind = .scalar keyKind) (calm : picked.kind.isPending = false) :
      CanSettle catalog field
  | element {head : FieldHead} {element : Field} {count : Nat}
      (shape : head.shape = .list count) (below : CanSettle catalog element) :
      CanSettle catalog (.withElement head element)

theorem settleField_of_not_list {catalog : Catalog} {schema : String} {field : Field}
    (notList : ∀ count, field.head.shape ≠ .list count) :
    catalog.settleField schema field = catalog.settleHead schema field := by
  cases field with
  | single head => rfl
  | withElement head element =>
      unfold settleField
      split
      · rename_i count list
        exact absurd list (notList count)
      · rfl

theorem settleAs_ne_none (schema : String) (field : Field) (definition : Definition) :
    settleAs schema field definition ≠ .ok none := by
  cases definition with
  | schema target => simp [settleAs]
  | enumTable table => simp [settleAs]

theorem canSettle_of_settleHead {catalog : Catalog} {schema : String} {field : Field}
    (decided : catalog.settleHead schema field ≠ .ok none) : catalog.CanSettle field := by
  unfold settleHead at decided
  split at decided
  · rename_i shape
    cases found : catalog.definition? field.head.typeText with
    | none => exact absurd (settleCandidate_of_none found) decided
    | some definition => exact .candidate shape found
  · rename_i reference shape
    obtain ⟨keyKind, pickedKind, rows, keyFound, pickedFound, scalar, rfl, calm⟩ :=
      refers_of_settleReference decided
    exact .lookup shape rows keyFound pickedFound scalar calm
  · exact absurd rfl decided

/-- Exactly the fields that can be settled are settled or refused. -/
theorem settleField_ne_none_iff {catalog : Catalog} {schema : String} {field : Field} :
    catalog.settleField schema field ≠ .ok none ↔ catalog.CanSettle field := by
  constructor
  · intro decided
    induction field with
    | single head => exact canSettle_of_settleHead decided
    | withElement head element inductionHypothesis =>
        by_cases list : ∃ count, head.shape = .list count
        · rcases list with ⟨count, shape⟩
          apply CanSettle.element shape
          apply inductionHypothesis
          intro undecided
          apply decided
          unfold settleField
          simp only [shape, undecided]
        · have notList : ∀ count, (Field.withElement head element).head.shape ≠ .list count :=
            fun count shape => list ⟨count, shape⟩
          rw [settleField_of_not_list notList] at decided
          exact canSettle_of_settleHead decided
  · intro settles
    induction settles with
    | @candidate field definition shape found =>
        rw [settleField_of_not_list (by simp [shape]), settleHead, shape]
        simp only [settleCandidate_of_definition? found]
        exact settleAs_ne_none schema field definition
    | lookup shape rows keyFound pickedFound scalar calm =>
        rw [settleField_of_not_list (by simp [shape]), settleHead, shape]
        simp only [settleReference_of_refers ⟨rows, keyFound, pickedFound, scalar, rfl, calm⟩]
        simp
    | @element head element count shape _ inductionHypothesis =>
        unfold settleField
        simp only [shape]
        split
        · simp
        · rename_i undecided
          exact absurd undecided inductionHypothesis
        · simp

/-! ## Settling a settled catalog -/

theorem settleFields_of_idle {catalog : Catalog} {name : String} {fields : List Field}
    (idle : ∀ field ∈ fields, catalog.settleField name field = .ok none)
    (schema start : Nat) : catalog.settleFields name schema start fields = .ok [] := by
  induction fields generalizing start with
  | nil => rfl
  | cons field fields inductionHypothesis =>
      rw [List.forall_mem_cons] at idle
      rw [settleFields, idle.1, inductionHypothesis idle.2]
      rfl

theorem settleSchemas_of_isSettled {catalog : Catalog} (settled : catalog.IsSettled)
    (positions : List Nat) : catalog.settleSchemas positions = .ok [] := by
  induction positions with
  | nil => rfl
  | cons position positions inductionHypothesis =>
      unfold settleSchemas
      split
      · exact inductionHypothesis
      · rename_i schema found
        have idle := settled schema (List.mem_of_getElem? found)
        rw [settleFields_of_idle idle, inductionHypothesis]
        rfl

/-- Where nothing is left to settle, settling does nothing. -/
theorem settle_of_isSettled {catalog : Catalog} (settled : catalog.IsSettled) :
    catalog.settle = ⟨catalog, [], .ok 0⟩ := by
  unfold settle
  cases catalog.pendingCount with
  | zero => rfl
  | succ budget =>
      unfold settleWithin
      rw [settleSchemas_of_isSettled settled]

/-! ## Operations -/

/-- What a caller can ask of a catalog. -/
inductive Operation where
  | add (definition : Definition)
  | absorb (other : Catalog)
  | settle

/-- The step of an operation, without the number of fields that settling answers. -/
def perform (catalog : Catalog) : Operation → Step Catalog DefinitionError Unit
  | .add definition => catalog.addDefinition definition
  | .absorb other => catalog.absorb other
  | .settle =>
    let step := catalog.settle
    { step with result := step.result.map fun _ => () }

/-- The catalogs that operations lead to. -/
inductive Reachable : Catalog → Prop where
  | start : Reachable empty
  | step {catalog : Catalog} (reached : Reachable catalog) (operation : Operation) :
      Reachable (catalog.perform operation).state

/-- Nothing is filed but under the key of a name. -/
def FilesNames (catalog : Catalog) : Prop :=
  ∀ key, catalog.names.contains key = true → ∃ name, NameKey.of name = key

/-- What every operation preserves. -/
structure Kept (catalog : Catalog) : Prop where
  sound : catalog.Sound
  filesNames : catalog.FilesNames

theorem kept_empty : empty.Kept := by
  constructor
  · exact sound_empty
  · intro key taken
    cases taken

theorem FilesNames.grown {catalog : Catalog} (filesNames : catalog.FilesNames)
    (definition : Definition) : (catalog.grown definition).FilesNames := by
  have names : (catalog.grown definition).names =
      catalog.names.insert (.of definition.name) (catalog.entryOf definition) := by
    cases definition <;> rfl
  intro key taken
  rw [names, Registry.contains, Registry.find?_insert] at taken
  by_cases here : NameKey.of definition.name = key
  · exact ⟨definition.name, here⟩
  · rw [if_neg here] at taken
    exact filesNames key taken

namespace Kept

variable {catalog : Catalog}

theorem addDefinition (kept : catalog.Kept) {definition : Definition}
    (accepted : (catalog.addDefinition definition).result = .ok ()) :
    (catalog.addDefinition definition).state.Kept := by
  constructor
  · exact (kept.sound.indexed.addDefinition accepted).1
  · intro key taken
    rw [state_addDefinition accepted, names_settle] at taken
    exact kept.filesNames.grown definition key taken

theorem addAll (kept : catalog.Kept) {definitions : List Definition}
    (accepted : (Catalog.addAll Catalog.addDefinition catalog definitions).result = .ok ()) :
    (Catalog.addAll Catalog.addDefinition catalog definitions).state.Kept := by
  induction definitions generalizing catalog with
  | nil => exact kept
  | cons definition definitions inductionHypothesis =>
      rcases addAll_cons_eq_ok_iff.mp accepted with ⟨here, further⟩
      rw [state_addAll_cons here]
      exact inductionHypothesis (kept.addDefinition here) further

theorem perform (kept : catalog.Kept) (operation : Operation) :
    (catalog.perform operation).state.Kept := by
  cases operation with
  | add definition =>
      change (catalog.addDefinition definition).state.Kept
      cases outcome : (catalog.addDefinition definition).result with
      | ok done => exact kept.addDefinition outcome
      | error refusal => rwa [(addDefinition_of_refused outcome).1]
  | absorb other =>
      change (catalog.absorb other).state.Kept
      cases outcome : (catalog.absorb other).result with
      | ok done =>
          rw [state_absorb outcome]
          exact kept.addAll (absorb_eq_ok_iff.mp outcome)
      | error refusal => rwa [(absorb_of_refused outcome).1]
  | settle =>
      change catalog.settle.state.Kept
      rwa [settle_of_isSettled kept.sound.settled]

end Kept

theorem Reachable.kept {catalog : Catalog} (reached : catalog.Reachable) : catalog.Kept := by
  induction reached with
  | start => exact kept_empty
  | step _ operation inductionHypothesis => exact inductionHypothesis.perform operation

/-! ## Catalogs at rest -/

/-- The index files exactly the definitions, the pending positions are exactly those of
the schemas that wait, in ascending order, and no field can be settled. -/
structure AtRest (catalog : Catalog) : Prop where
  names (key : NameKey) (entry : CatalogEntry) : catalog.names.find? key = some entry ↔
    ∃ definition, catalog.definitionAt? entry = some definition ∧
      NameKey.of definition.name = key
  pending (position : Nat) : position ∈ catalog.pending ↔
    ∃ schema, catalog.schemas[position]? = some schema ∧ schema.isPending = true
  ascending : catalog.pending.Pairwise (· < ·)
  exhausted : ∀ schema ∈ catalog.schemas, ∀ field ∈ schema.fields, ¬catalog.CanSettle field
  settled : catalog.settle = ⟨catalog, [], .ok 0⟩

theorem Kept.find?_eq_some_iff {catalog : Catalog} (kept : catalog.Kept) {key : NameKey}
    {entry : CatalogEntry} : catalog.names.find? key = some entry ↔
      ∃ definition, catalog.definitionAt? entry = some definition ∧
        NameKey.of definition.name = key := by
  constructor
  · intro found
    have taken : catalog.names.contains key = true := by simp [Registry.contains, found]
    obtain ⟨name, rfl⟩ := kept.filesNames key taken
    exact kept.sound.indexed.held found
  · rintro ⟨definition, found, rfl⟩
    exact kept.sound.indexed.filed found

theorem Indexed.mem_pending_iff {catalog : Catalog} (indexed : catalog.Indexed)
    {position : Nat} : position ∈ catalog.pending ↔
      ∃ schema, catalog.schemas[position]? = some schema ∧ schema.isPending = true := by
  rw [← isPendingAt_iff]
  constructor
  · intro member
    rw [indexed.waiting, List.mem_filter] at member
    exact member.2
  · exact indexed.mem_pending

theorem Indexed.ascending {catalog : Catalog} (indexed : catalog.Indexed) :
    catalog.pending.Pairwise (· < ·) := by
  rw [indexed.waiting]
  exact List.pairwise_lt_range.filter _

/-- Whatever operations lead to a catalog, it is at rest. -/
theorem Reachable.at_rest {catalog : Catalog} (reached : catalog.Reachable) :
    catalog.AtRest := by
  have kept := reached.kept
  constructor
  · exact fun _ _ => kept.find?_eq_some_iff
  · exact fun _ => kept.sound.indexed.mem_pending_iff
  · exact kept.sound.indexed.ascending
  · intro schema member field present settles
    exact settleField_ne_none_iff.mpr settles
      (kept.sound.settled schema member field present)
  · exact settle_of_isSettled kept.sound.settled

/-- Crates and items that wait for shelves, and an order that names a crate, after shelves
were refused. -/
def orderCatalog : Catalog :=
  ((crateCatalog.perform (.absorb shelfCatalog)).state.perform
    (.add (.schema { name := "Order", fields := [.unresolved "what" "crate"] }))).state

theorem reachable_orderCatalog : orderCatalog.Reachable :=
  .step (.step (.step (.step .start (.add (.schema crateSchema)))
    (.add (.schema shelvedSchema))) (.absorb shelfCatalog)) _

theorem orderCatalog_at_rest :
    orderCatalog.Reachable ∧ orderCatalog.pending = [0, 1] ∧
      orderCatalog.schemas.length = 3 ∧ orderCatalog.AtRest :=
  ⟨reachable_orderCatalog, by decide +kernel, by decide +kernel,
    Reachable.at_rest reachable_orderCatalog⟩

end Catalog

end Tabula
