import Tabula.Proofs.Catalog.Coverage

/-!
# Refused additions

A definition is refused because its name is taken, or because some pass settles a field to
a kind that its fallback does not fit.  The passes before that one have already swapped
fields and shortened the list of pending positions.  As no pass touches the index or the
enums, putting back the schemas and the pending positions and taking the new name out
again gives the catalog from before.
-/

namespace Tabula

namespace Catalog

/-! ## Why additions are refused -/

/-- The ways in which definitions are refused: a name is taken, or a field settles to a
kind that its fallback does not fit. -/
inductive Refuses (definitions : List Definition) : DefinitionError → Prop where
  | taken {definition : Definition} (member : definition ∈ definitions) :
      Refuses definitions (nameTaken definition.name)
  | fallback (schema : String) (field : Field) (cause : ValueError) :
      Refuses definitions (fallbackRefusal schema field cause)

theorem Refuses.mono {definitions others : List Definition} {refusal : DefinitionError}
    (refuses : Refuses definitions refusal)
    (inside : ∀ definition ∈ definitions, definition ∈ others) : Refuses others refusal := by
  cases refuses with
  | taken member => exact .taken (inside _ member)
  | fallback schema field cause => exact .fallback schema field cause

theorem fallbackRefusal_of_settleAs {schema : String} {field : Field}
    {definition : Definition} {refusal : DefinitionError}
    (refused : settleAs schema field definition = .error refusal) :
    ∃ cause, fallbackRefusal schema field cause = refusal := by
  cases definition with
  | schema target => cases refused
  | enumTable table =>
      rw [settleAs, map_eq_error_iff, mapError_eq_error_iff] at refused
      rcases refused with ⟨cause, _, same⟩
      exact ⟨cause, same⟩

theorem fallbackRefusal_of_settleHead {catalog : Catalog} {schema : String} {field : Field}
    {refusal : DefinitionError} (refused : catalog.settleHead schema field = .error refusal) :
    ∃ cause, fallbackRefusal schema field cause = refusal := by
  unfold settleHead at refused
  split at refused
  · cases found : catalog.definition? field.head.typeText with
    | none =>
        rw [settleCandidate_of_none found] at refused
        cases refused
    | some definition =>
        rw [settleCandidate_of_definition? found] at refused
        exact fallbackRefusal_of_settleAs refused
  · obtain ⟨keyKind, pickedKind, refers⟩ := refers_of_settleReference (by rw [refused]; simp)
    rw [settleReference_of_refers refers, map_eq_error_iff, mapError_eq_error_iff] at refused
    rcases refused with ⟨cause, _, same⟩
    exact ⟨cause, same⟩
  · cases refused

/-- A field is refused for its fallback, or for that of its elements. -/
theorem fallbackRefusal_of_settleField {catalog : Catalog} {schema : String} {field : Field}
    {refusal : DefinitionError}
    (refused : catalog.settleField schema field = .error refusal) :
    ∃ place cause, fallbackRefusal schema place cause = refusal := by
  induction field with
  | single head => exact ⟨_, fallbackRefusal_of_settleHead refused⟩
  | withElement head element inductionHypothesis =>
      unfold settleField at refused
      split at refused
      · split at refused
        · rename_i below
          cases refused
          exact inductionHypothesis below
        · cases refused
        · rw [map_eq_error_iff, mapError_eq_error_iff] at refused
          rcases refused with ⟨cause, _, same⟩
          exact ⟨_, cause, same⟩
      · exact ⟨_, fallbackRefusal_of_settleHead refused⟩

theorem refuses_of_settle {catalog : Catalog} {refusal : DefinitionError}
    (definitions : List Definition) (refused : catalog.settle.result = .error refusal) :
    Refuses definitions refusal := by
  obtain ⟨schema, _, field, _, here⟩ := exists_refused_of_settleWithin refused
  obtain ⟨place, cause, rfl⟩ := fallbackRefusal_of_settleField here
  exact .fallback schema.name place cause

/-! ## What a refusal leaves behind -/

theorem enumTables_settle (catalog : Catalog) :
    catalog.settle.state.enumTables = catalog.enumTables := by
  apply settleWithin_induction
    (motive := fun reached => reached.enumTables = catalog.enumTables) rfl
  intro reached settlements same fit
  exact (Passes.placeAll fit).enumTables.trans same

theorem state_settleGrown_of_error {grown : Catalog} {undo : Catalog → Catalog}
    {refusal : DefinitionError} (refused : (settleGrown grown undo).result = .error refusal) :
    (settleGrown grown undo).state = undo grown.settle.state ∧
      grown.settle.result = .error refusal := by
  simp only [settleGrown] at refused ⊢
  cases outcome : grown.settle.result with
  | ok total =>
      rw [outcome] at refused
      cases refused
  | error cause =>
      simp only [outcome] at refused
      cases refused
      exact ⟨rfl, rfl⟩

/-- Setting back undoes the growth and every pass that came after it. -/
theorem setBack_settle {catalog : Catalog} {definition : Definition}
    (vacant : catalog.contains definition.name = false) :
    catalog.setBack definition (catalog.grown definition).settle.state = catalog := by
  cases definition with
  | schema schema =>
      have free : catalog.names.contains (.of schema.name) = false := vacant
      simp only [setBack, names_settle, enumTables_settle, grown]
      rw [Registry.erase_insert free]
  | enumTable table =>
      have free : catalog.names.contains (.of table.name) = false := vacant
      simp only [setBack, names_settle, enumTables_settle, grown, List.dropLast_concat]
      rw [Registry.erase_insert free]

/-- A refused definition leaves the catalog as it was. -/
theorem addDefinition_of_refused {catalog : Catalog} {definition : Definition}
    {refusal : DefinitionError}
    (refused : (catalog.addDefinition definition).result = .error refusal) :
    (catalog.addDefinition definition).state = catalog ∧ Refuses [definition] refusal := by
  cases free : catalog.contains definition.name with
  | true =>
      rw [addDefinition_of_taken free] at refused ⊢
      cases refused
      exact ⟨rfl, .taken List.mem_cons_self⟩
  | false =>
      rw [addDefinition_of_vacant free] at refused ⊢
      obtain ⟨undone, settling⟩ := state_settleGrown_of_error refused
      rw [undone, setBack_settle free]
      exact ⟨rfl, refuses_of_settle [definition] settling⟩

/-- Adding members one after another is refused with one of them. -/
theorem exists_refused_of_addAll {α : Type}
    {add : Catalog → α → Step Catalog DefinitionError Unit} {catalog : Catalog}
    {members : List α} {refusal : DefinitionError}
    (refused : (addAll add catalog members).result = .error refusal) :
    ∃ reached, ∃ member ∈ members, (add reached member).result = .error refusal := by
  induction members generalizing catalog with
  | nil => cases refused
  | cons member members inductionHypothesis =>
      cases here : (add catalog member).result with
      | error cause =>
          simp only [addAll, here] at refused
          cases refused
          exact ⟨catalog, member, List.mem_cons_self, here⟩
      | ok done =>
          simp only [addAll, here] at refused
          obtain ⟨reached, other, below, found⟩ := inductionHypothesis refused
          exact ⟨reached, other, List.mem_cons_of_mem _ below, found⟩

/-- A catalog that cannot be taken in leaves the other as it was. -/
theorem absorb_of_refused {catalog other : Catalog} {refusal : DefinitionError}
    (refused : (catalog.absorb other).result = .error refusal) :
    (catalog.absorb other).state = catalog ∧ Refuses other.definitions refusal := by
  simp only [absorb] at refused ⊢
  cases enums : (addAll addEnumTable catalog other.enumTables).result with
  | error cause =>
      rw [enums] at refused
      cases refused
      obtain ⟨reached, table, member, found⟩ := exists_refused_of_addAll enums
      have here : (reached.addDefinition (.enumTable table)).result = .error refusal := found
      refine ⟨rfl, (addDefinition_of_refused here).2.mono ?_⟩
      rw [List.forall_mem_singleton]
      exact List.mem_append_left _ (List.mem_map_of_mem member)
  | ok done =>
      simp only [enums] at refused ⊢
      cases schemas : (addAll addSchema (addAll addEnumTable catalog other.enumTables).state
          other.schemas).result with
      | error cause =>
          rw [schemas] at refused
          cases refused
          obtain ⟨reached, schema, member, found⟩ := exists_refused_of_addAll schemas
          have here : (reached.addDefinition (.schema schema)).result = .error refusal := found
          refine ⟨rfl, (addDefinition_of_refused here).2.mono ?_⟩
          rw [List.forall_mem_singleton]
          exact List.mem_append_right _ (List.mem_map_of_mem member)
      | ok done =>
          rw [schemas] at refused
          cases refused

/-- An addition of either sort of definition, or of a whole catalog, that is refused
leaves the schemas, the enums, the index and the pending positions as they were. -/
theorem refused_additions_change_nothing (catalog : Catalog) :
    (∀ definition refusal, (catalog.addDefinition definition).result = .error refusal →
      (catalog.addDefinition definition).state = catalog ∧ Refuses [definition] refusal) ∧
    ∀ other refusal, (catalog.absorb other).result = .error refusal →
      (catalog.absorb other).state = catalog ∧ Refuses other.definitions refusal :=
  ⟨fun _ _ => addDefinition_of_refused, fun _ _ => absorb_of_refused⟩

/-- A crate of loot repeats the stock of an item, and has "many" unless it says so. -/
def crateSchema : Schema where
  name := "Crate"
  fields :=
    [.single
      { name := "stock", typeText := "Item.stock.$stock"
        shape := .lookup
          (some { table := "Item", keyField := "stock", pickedField := "stock" })
        fallback := some (.text "many") }]

/-- The stock of an item repeats the size of a shelf. -/
def shelvedSchema : Schema where
  name := "Item"
  fields := [.lookup "stock" { table := "Shelf", keyField := "size", pickedField := "size" }]

/-- The size of a shelf is a number. -/
def shelfSchema : Schema where
  name := "Shelf"
  fields := [.ofKind "size" (.scalar (.integer .bits16))]

/-- Crates and items, both waiting for shelves. -/
def crateCatalog : Catalog :=
  (addAll addDefinition empty [.schema crateSchema, .schema shelvedSchema]).state

/-- Shelves, and a schema that could be added. -/
def shelfCatalog : Catalog :=
  (addAll addDefinition empty [.schema (.named "Room"), .schema shelfSchema]).state

/-- The first pass settles the items and the second one refuses the crates. -/
theorem crateCatalog_refuses_shelves :
    (crateCatalog.addSchema shelfSchema).events = [.passSettled 1 1] ∧
      (crateCatalog.addSchema shelfSchema).result =
        .error (.settledFallback "Crate" "stock" "many"
          (.conversion "many" .text (.integer .bits16))) ∧
      (crateCatalog.addSchema shelfSchema).state = crateCatalog ∧
      (crateCatalog.absorb shelfCatalog).result =
        .error (.settledFallback "Crate" "stock" "many"
          (.conversion "many" .text (.integer .bits16))) ∧
      (crateCatalog.absorb shelfCatalog).state = crateCatalog := by
  have added : (crateCatalog.addDefinition (.schema shelfSchema)).result =
      .error (.settledFallback "Crate" "stock" "many"
        (.conversion "many" .text (.integer .bits16))) := by
    decide +kernel
  have absorbed : (crateCatalog.absorb shelfCatalog).result =
      .error (.settledFallback "Crate" "stock" "many"
        (.conversion "many" .text (.integer .bits16))) := by
    decide +kernel
  obtain ⟨definitions, catalogs⟩ := refused_additions_change_nothing crateCatalog
  exact ⟨by decide +kernel, added, (definitions _ _ added).1, absorbed,
    (catalogs _ _ absorbed).1⟩

end Catalog

end Tabula
