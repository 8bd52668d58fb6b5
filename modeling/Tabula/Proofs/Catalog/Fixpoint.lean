import Tabula.Proofs.Catalog.Pass

/-!
# Settling to the end

A catalog is indexed when its names point at its definitions and its pending positions
are those of the schemas that wait.  Settling an indexed catalog ends where nothing is
left to settle, or at a refusal.  Where it is on the way to a catalog with nothing left
to settle, no refusal can come up and it stays on that way.
-/

namespace Tabula

namespace Catalog

/-- Every name points at the definition of that name, and the pending positions are those
of the schemas that wait, in order. -/
structure Indexed (catalog : Catalog) : Prop where
  filed {entry : CatalogEntry} {definition : Definition} :
    catalog.definitionAt? entry = some definition →
      catalog.meaning? definition.name = some entry
  held {name : String} {entry : CatalogEntry} : catalog.meaning? name = some entry →
    ∃ definition, catalog.definitionAt? entry = some definition ∧
      NameKey.of definition.name = NameKey.of name
  waiting : catalog.pending =
    (List.range catalog.schemas.length).filter catalog.isPendingAt

theorem indexed_empty : empty.Indexed := by
  constructor
  · intro entry definition found
    cases entry <;> cases found
  · intro name entry meaning
    cases meaning
  · rfl

theorem isPendingAt_iff {catalog : Catalog} {position : Nat} :
    catalog.isPendingAt position = true ↔
      ∃ schema, catalog.schemas[position]? = some schema ∧ schema.isPending = true := by
  unfold isPendingAt
  split
  · rename_i schema found
    simp [found]
  · rename_i missing
    simp [missing]

namespace Indexed

variable {catalog : Catalog}

/-- Every definition is found under its name. -/
theorem definition?_name (indexed : catalog.Indexed) {definition : Definition}
    (member : definition ∈ catalog.definitions) :
    catalog.definition? definition.name = some definition := by
  rcases mem_definitions_iff_exists.mp member with ⟨entry, found⟩
  rw [definition?, indexed.filed found]
  exact found

theorem mem_definitions_iff (indexed : catalog.Indexed) {definition : Definition} :
    definition ∈ catalog.definitions ↔
      catalog.definition? definition.name = some definition :=
  ⟨indexed.definition?_name, mem_definitions_of_definition?⟩

/-- What is found under a name has that name. -/
theorem key_of_definition? (indexed : catalog.Indexed) {name : String}
    {definition : Definition} (found : catalog.definition? name = some definition) :
    NameKey.of definition.name = NameKey.of name := by
  rcases Option.bind_eq_some_iff.mp found with ⟨entry, meaning, here⟩
  obtain ⟨other, there, same⟩ := indexed.held meaning
  rw [here] at there
  cases there
  exact same

theorem mem_pending (indexed : catalog.Indexed) {position : Nat}
    (waiting : catalog.isPendingAt position = true) : position ∈ catalog.pending := by
  rcases isPendingAt_iff.mp waiting with ⟨schema, found, _⟩
  rcases List.getElem?_eq_some_iff.mp found with ⟨inside, _⟩
  rw [indexed.waiting, List.mem_filter, List.mem_range]
  exact ⟨inside, waiting⟩

end Indexed

/-! ## Passes keep the index -/

theorem pending_foldl_place (catalog : Catalog) (settlements : List Settlement) :
    (settlements.foldl place catalog).pending = catalog.pending := by
  induction settlements generalizing catalog with
  | nil => rfl
  | cons settlement settlements inductionHypothesis => exact inductionHypothesis _

/-- A schema that waits after a pass waited before it. -/
theorem Passes.isPendingAt {before after : Catalog} (passes : Passes before after)
    {position : Nat} (waiting : after.isPendingAt position = true) :
    before.isPendingAt position = true := by
  rw [isPendingAt_iff] at waiting ⊢
  rcases waiting with ⟨reached, found, pending⟩
  obtain ⟨schema, foundBefore, follows⟩ := exists_getElem?_of_forall₂ passes.schemas.flip found
  refine ⟨schema, foundBefore, ?_⟩
  rw [Schema.isPending, List.any_eq_true] at pending ⊢
  rcases pending with ⟨field, member, waits⟩
  obtain ⟨place, here⟩ := List.getElem?_of_mem member
  obtain ⟨old, oldHere, advances⟩ := exists_getElem?_of_forall₂ follows.fields.flip here
  refine ⟨old, List.mem_of_getElem? oldHere, ?_⟩
  rcases advances with rfl | settled
  · exact waits
  · exact (settles_of_settleField settled).isPending waits

theorem Indexed.placeAll {catalog : Catalog} (indexed : catalog.Indexed)
    {settlements : List Settlement}
    (fit : ∀ settlement ∈ settlements, settlement.Fits catalog) :
    (catalog.placeAll settlements).Indexed := by
  have passes := Passes.placeAll fit
  constructor
  · intro entry definition found
    obtain ⟨old, here, follows⟩ := passes.exists_before found
    rw [passes.meaning?, follows.name]
    exact indexed.filed here
  · intro name entry meaning
    rw [passes.meaning?] at meaning
    obtain ⟨old, here, same⟩ := indexed.held meaning
    obtain ⟨definition, there, follows⟩ := passes.definitionAt? here
    exact ⟨definition, there, follows.name ▸ same⟩
  · change (settlements.foldl place catalog).pending.filter
      (catalog.placeAll settlements).isPendingAt = _
    rw [pending_foldl_place, indexed.waiting, List.filter_filter, ← passes.schemas.length_eq]
    apply List.filter_congr
    intro position _
    rw [Bool.and_eq_left_iff_imp]
    exact passes.isPendingAt

/-! ## All passes -/

/-- What every pass preserves holds at the end. -/
theorem settleWithin_induction {motive : Catalog → Prop} {catalog : Catalog}
    (start : motive catalog)
    (pass : ∀ {reached : Catalog} {settlements : List Settlement}, motive reached →
      (∀ settlement ∈ settlements, settlement.Fits reached) →
      motive (reached.placeAll settlements))
    (budget passes settled : Nat) :
    motive (catalog.settleWithin budget passes settled).state := by
  induction budget generalizing catalog passes settled with
  | zero => exact start
  | succ budget inductionHypothesis =>
      unfold settleWithin
      split
      · exact start
      · exact start
      · rename_i first others accepted
        exact inductionHypothesis (pass start (settleSchemas_eq_ok accepted).1) _ _

/-- A pass that settles anything leaves fewer heads to wait. -/
theorem pendingCount_placeAll_lt {catalog : Catalog} {first : Settlement}
    {others : List Settlement}
    (fit : ∀ settlement ∈ first :: others, settlement.Fits catalog) :
    (catalog.placeAll (first :: others)).pendingCount < catalog.pendingCount := by
  rw [List.forall_mem_cons] at fit
  obtain ⟨placed, _⟩ := (Passes.refl catalog).place fit.1
  obtain ⟨_, fewer⟩ := placed.foldl_place fit.2
  rcases fit.1 with ⟨schema, field, found, present, settled⟩
  have settles := settles_of_settleField settled
  have keepsName : schema.KeepsName first.field first.settled :=
    SchemaData.keepsName_of_name present settles.name
  have change := pendingCount_place found present keepsName
  have strict := settles.fewer
  have whole : (catalog.placeAll (first :: others)).pendingCount ≤
      (catalog.place first).pendingCount := fewer
  omega

/-- Where no head waits, nothing is left to settle. -/
theorem isSettled_of_pendingCount {catalog : Catalog} (none : catalog.pendingCount = 0) :
    catalog.IsSettled := by
  intro schema member field present
  apply settleField_of_calm
  rw [Bool.eq_false_iff]
  intro waits
  have here := (Field.pendingCount_pos_iff field).mpr (Field.isPending_of_waits waits)
  have inCatalog : 0 < catalog.pendingCount :=
    pendingHeads_pos (List.mem_flatMap.mpr ⟨schema, member, present⟩) here
  omega

/-- A pass that settles nothing finds nothing left to settle. -/
theorem isSettled_of_settleSchemas {catalog : Catalog} (indexed : catalog.Indexed)
    (idle : catalog.settleSchemas catalog.pending = .ok []) : catalog.IsSettled := by
  intro schema member field present
  obtain ⟨position, found⟩ := List.getElem?_of_mem member
  cases waiting : schema.isPending with
  | true =>
      have known : position ∈ catalog.pending :=
        indexed.mem_pending (isPendingAt_iff.mpr ⟨schema, found, waiting⟩)
      exact (settleSchemas_eq_ok idle).2 rfl position known schema found field present
  | false =>
      apply settleField_of_calm
      rw [Schema.isPending, List.any_eq_false] at waiting
      rw [Bool.eq_false_iff]
      intro waits
      exact waiting field present (Field.isPending_of_waits waits)

theorem isSettled_of_settleWithin {catalog : Catalog} {budget passes settled total : Nat}
    (indexed : catalog.Indexed) (enough : catalog.pendingCount ≤ budget)
    (accepted : (catalog.settleWithin budget passes settled).result = .ok total) :
    (catalog.settleWithin budget passes settled).state.IsSettled := by
  induction budget generalizing catalog passes settled with
  | zero => exact isSettled_of_pendingCount (Nat.le_zero.mp enough)
  | succ budget inductionHypothesis =>
      unfold settleWithin at accepted ⊢
      split at accepted
      · cases accepted
      · rename_i idle
        exact isSettled_of_settleSchemas indexed idle
      · rename_i first others found
        have fit := (settleSchemas_eq_ok found).1
        have fewer := pendingCount_placeAll_lt fit
        exact inductionHypothesis (indexed.placeAll fit) (by omega) accepted

/-- A refusal is the refusal of a field in the catalog that was reached. -/
theorem exists_refused_of_settleWithin {catalog : Catalog} {budget passes settled : Nat}
    {refusal : DefinitionError}
    (refused : (catalog.settleWithin budget passes settled).result = .error refusal) :
    ∃ schema ∈ (catalog.settleWithin budget passes settled).state.schemas,
      ∃ field ∈ schema.fields,
        (catalog.settleWithin budget passes settled).state.settleField schema.name field =
          .error refusal := by
  induction budget generalizing catalog passes settled with
  | zero => cases refused
  | succ budget inductionHypothesis =>
      unfold settleWithin at refused ⊢
      split at refused
      · rename_i other found
        cases refused
        exact settleSchemas_eq_error found
      · cases refused
      · exact inductionHypothesis refused

/-! ## Settling -/

variable {catalog : Catalog}

theorem Indexed.settle (indexed : catalog.Indexed) : catalog.settle.state.Indexed := by
  apply settleWithin_induction (motive := Indexed) indexed
  intro reached settlements known fit
  exact known.placeAll fit

/-- Settling takes a catalog on its way. -/
theorem precedes_settle (catalog : Catalog) : Precedes catalog catalog.settle.state := by
  apply settleWithin_induction (motive := Precedes catalog) (.refl catalog)
  intro reached settlements before fit
  exact before.trans (Passes.placeAll fit).precedes

/-- Settling ends only where nothing is left to settle. -/
theorem isSettled_settle {total : Nat} (indexed : catalog.Indexed)
    (accepted : catalog.settle.result = .ok total) : catalog.settle.state.IsSettled :=
  isSettled_of_settleWithin indexed (Nat.le_refl _) accepted

/-- Settling never oversteps a catalog where nothing is left to settle. -/
theorem Precedes.settle {goal : Catalog} (towards : Precedes catalog goal)
    (finished : goal.IsSettled) : Precedes catalog.settle.state goal := by
  apply settleWithin_induction (motive := (Precedes · goal)) towards
  intro reached settlements before fit
  exact (Passes.placeAll fit).precedes_of_isSettled before finished

/-- A field of a catalog on the way to one where nothing is left to settle is not
refused. -/
theorem Precedes.settleField_ne_error {goal : Catalog} (towards : Precedes catalog goal)
    (finished : goal.IsSettled) (indexed : catalog.Indexed) {schema : Schema} {field : Field}
    (member : schema ∈ catalog.schemas) (present : field ∈ schema.fields)
    (refusal : DefinitionError) :
    catalog.settleField schema.name field ≠ .error refusal := by
  intro refused
  have held : .schema schema ∈ catalog.definitions :=
    List.mem_append.mpr (Or.inr (List.mem_map.mpr ⟨schema, member, rfl⟩))
  obtain ⟨_, found, ⟨follows⟩⟩ := towards.known (indexed.definition?_name held)
  obtain ⟨position, here⟩ := List.getElem?_of_mem present
  obtain ⟨last, there, advances⟩ := exists_getElem?_of_forall₂ follows.fields here
  have refusedThere : goal.settleField schema.name field = .error refusal :=
    towards.informs.settleField_eq refused (by simp)
  have idle := finished _ (mem_schemas_of_definition? found) last (List.mem_of_getElem? there)
  rw [follows.name] at idle
  rcases advances with rfl | settled
  · rw [idle] at refusedThere
    cases refusedThere
  · rw [settled] at refusedThere
    cases refusedThere

theorem Precedes.exists_settle_eq_ok {goal : Catalog} (towards : Precedes catalog goal)
    (finished : goal.IsSettled) (indexed : catalog.Indexed) :
    ∃ total, catalog.settle.result = .ok total := by
  cases outcome : catalog.settle.result with
  | ok total => exact ⟨total, rfl⟩
  | error refusal =>
      obtain ⟨schema, member, field, present, refused⟩ :=
        exists_refused_of_settleWithin outcome
      exact absurd refused
        ((towards.settle finished).settleField_ne_error finished indexed.settle member present
          refusal)

end Catalog

end Tabula
