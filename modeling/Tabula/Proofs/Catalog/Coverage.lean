import Mathlib.Data.List.Nodup
import Tabula.Proofs.Catalog.Growth

/-!
# Adding many definitions

Definitions are accepted one after another exactly when their names are free and some
catalog where nothing is left to settle has them all.  Whatever order they come in, the
catalogs on the way precede that one.
-/

namespace Tabula

namespace Catalog

/-- The catalog has the definition, its fields settled or as they were. -/
def Covers (catalog : Catalog) (definition : Definition) : Prop :=
  ∃ reached, catalog.definition? definition.name = some reached ∧
    definition.Follows catalog.Advances reached

/-- The names point at the definitions, and nothing is left to settle. -/
structure Sound (catalog : Catalog) : Prop where
  indexed : catalog.Indexed
  settled : catalog.IsSettled

theorem sound_empty : empty.Sound := by
  constructor
  · exact indexed_empty
  · intro schema member
    cases member

/-! ## Covered definitions -/

/-- What is covered once stays covered. -/
theorem Covers.later {earlier later : Catalog} {definition : Definition}
    (covers : earlier.Covers definition) (precedes : Precedes earlier later) :
    later.Covers definition := by
  obtain ⟨between, found, onward⟩ := covers
  obtain ⟨reached, foundLater, further⟩ := precedes.known found
  refine ⟨reached, foundLater, onward.trans further ?_⟩
  intro schema one two three here next
  exact (Advances.informed here precedes.informs).trans next

theorem covers_grown (catalog : Catalog) (definition : Definition) :
    (catalog.grown definition).Covers definition :=
  ⟨definition, definition?_grown_name catalog definition, .refl (Advances.refl _) definition⟩

/-- Growing by a definition of a catalog keeps on the way to it. -/
theorem Precedes.grown {catalog goal : Catalog} {added : Definition}
    (towards : Precedes catalog goal) (indexed : catalog.Indexed)
    (covers : goal.Covers added) : Precedes (catalog.grown added) goal := by
  constructor
  intro name definition found
  rcases definition?_of_grown indexed found with old | ⟨rfl, same⟩
  · exact towards.known old
  · rw [← goal.definition?_congr same]
    exact covers

/-! ## One definition -/

/-- An accepted definition leaves a sound catalog that is further on its way. -/
theorem Indexed.addDefinition {catalog : Catalog} (indexed : catalog.Indexed)
    {definition : Definition}
    (accepted : (catalog.addDefinition definition).result = .ok ()) :
    (catalog.addDefinition definition).state.Sound ∧
      Precedes catalog (catalog.addDefinition definition).state ∧
      (catalog.addDefinition definition).state.Covers definition := by
  rcases addDefinition_eq_ok_iff.mp accepted with ⟨vacant, total, settling⟩
  have grown := indexed.grown vacant
  have settled := precedes_settle (catalog.grown definition)
  rw [state_addDefinition accepted]
  exact ⟨⟨grown.settle, isSettled_settle grown settling⟩,
    (precedes_grown vacant).trans settled, (covers_grown catalog definition).later settled⟩

/-- A definition with a free name that a settled catalog covers is accepted on the way to
it. -/
theorem Precedes.accepts {catalog goal : Catalog} {definition : Definition}
    (towards : Precedes catalog goal) (indexed : catalog.Indexed) (finished : goal.IsSettled)
    (covers : goal.Covers definition) (vacant : catalog.contains definition.name = false) :
    (catalog.addDefinition definition).result = .ok () ∧
      Precedes (catalog.addDefinition definition).state goal := by
  have onward := towards.grown indexed covers
  have accepted : (catalog.addDefinition definition).result = .ok () :=
    addDefinition_eq_ok_iff.mpr
      ⟨vacant, onward.exists_settle_eq_ok finished (indexed.grown vacant)⟩
  rw [state_addDefinition accepted]
  exact ⟨accepted, onward.settle finished⟩

theorem names_settle (catalog : Catalog) : catalog.settle.state.names = catalog.names := by
  apply settleWithin_induction (motive := fun reached => reached.names = catalog.names) rfl
  intro reached settlements same fit
  exact (Passes.placeAll fit).names.trans same

/-- An accepted definition takes its own name and no other. -/
theorem contains_addDefinition {catalog : Catalog} {definition : Definition}
    (accepted : (catalog.addDefinition definition).result = .ok ()) (name : String) :
    (catalog.addDefinition definition).state.contains name =
      (decide (NameKey.of definition.name = NameKey.of name) || catalog.contains name) := by
  rw [state_addDefinition accepted, contains, meaning?, names_settle, ← meaning?,
    meaning?_grown]
  by_cases same : NameKey.of definition.name = NameKey.of name
  · simp [same]
  · simp [same, contains]

/-! ## Many definitions -/

/-- The names of the definitions are free and differ from each other. -/
structure Vacant (catalog : Catalog) (definitions : List Definition) : Prop where
  free : ∀ definition ∈ definitions, catalog.contains definition.name = false
  distinct : (definitions.map (NameKey.of ·.name)).Nodup

theorem vacant_cons_iff {catalog : Catalog} {definition : Definition}
    {definitions : List Definition}
    (accepted : (catalog.addDefinition definition).result = .ok ()) :
    catalog.Vacant (definition :: definitions) ↔
      (catalog.addDefinition definition).state.Vacant definitions := by
  rcases addDefinition_eq_ok_iff.mp accepted with ⟨vacant, _⟩
  constructor
  · rintro ⟨free, distinct⟩
    rw [List.map_cons, List.nodup_cons] at distinct
    constructor
    · intro other member
      rw [contains_addDefinition accepted, Bool.or_eq_false_iff, decide_eq_false_iff_not]
      constructor
      · intro same
        exact distinct.1 (List.mem_map.mpr ⟨other, member, same.symm⟩)
      · exact free other (List.mem_cons_of_mem _ member)
    · exact distinct.2
  · rintro ⟨free, distinct⟩
    have apart : ∀ other ∈ definitions,
        NameKey.of definition.name ≠ NameKey.of other.name ∧
          catalog.contains other.name = false := by
      intro other member
      have unused := free other member
      rw [contains_addDefinition accepted, Bool.or_eq_false_iff, decide_eq_false_iff_not]
        at unused
      exact unused
    constructor
    · intro other member
      rcases List.mem_cons.mp member with rfl | below
      · exact vacant
      · exact (apart other below).2
    · rw [List.map_cons, List.nodup_cons]
      constructor
      · intro taken
        rcases List.mem_map.mp taken with ⟨other, member, same⟩
        exact (apart other member).1 same.symm
      · exact distinct

section addAll

variable {α : Type} {add : Catalog → α → Step Catalog DefinitionError Unit}
  {catalog : Catalog}

theorem addAll_cons_eq_ok_iff {member : α} {members : List α} :
    (addAll add catalog (member :: members)).result = .ok () ↔
      (add catalog member).result = .ok () ∧
        (addAll add (add catalog member).state members).result = .ok () := by
  simp only [addAll]
  cases outcome : (add catalog member).result with
  | error refusal => simp
  | ok done => simp

theorem state_addAll_cons {member : α} {members : List α}
    (accepted : (add catalog member).result = .ok ()) :
    (addAll add catalog (member :: members)).state =
      (addAll add (add catalog member).state members).state := by
  simp only [addAll, accepted]

theorem addAll_append_eq_ok_iff {members others : List α} :
    (addAll add catalog (members ++ others)).result = .ok () ↔
      (addAll add catalog members).result = .ok () ∧
        (addAll add (addAll add catalog members).state others).result = .ok () := by
  induction members generalizing catalog with
  | nil => simp [addAll]
  | cons member members inductionHypothesis =>
      rw [List.cons_append, addAll_cons_eq_ok_iff, addAll_cons_eq_ok_iff,
        inductionHypothesis, and_assoc]
      constructor
      · rintro ⟨here, further, beyond⟩
        exact ⟨here, further, state_addAll_cons here ▸ beyond⟩
      · rintro ⟨here, further, beyond⟩
        exact ⟨here, further, state_addAll_cons here ▸ beyond⟩

theorem state_addAll_append {members others : List α}
    (accepted : (addAll add catalog members).result = .ok ()) :
    (addAll add catalog (members ++ others)).state =
      (addAll add (addAll add catalog members).state others).state := by
  induction members generalizing catalog with
  | nil => rfl
  | cons member members inductionHypothesis =>
      rcases addAll_cons_eq_ok_iff.mp accepted with ⟨here, further⟩
      rw [List.cons_append, state_addAll_cons here, state_addAll_cons here,
        inductionHypothesis further]

/-- Members added one way are added another way after a renaming. -/
theorem addAll_map {β : Type} (rename : β → α) (members : List β) :
    addAll add catalog (members.map rename) =
      addAll (fun reached member => add reached (rename member)) catalog members := by
  induction members generalizing catalog with
  | nil => rfl
  | cons member members inductionHypothesis =>
      simp only [List.map_cons, addAll, inductionHypothesis]

end addAll

/-- Accepted definitions leave a sound catalog that has them all. -/
theorem Sound.addAll {catalog : Catalog} (sound : catalog.Sound)
    {definitions : List Definition}
    (accepted : (addAll addDefinition catalog definitions).result = .ok ()) :
    (Catalog.addAll addDefinition catalog definitions).state.Sound ∧
      Precedes catalog (Catalog.addAll addDefinition catalog definitions).state ∧
      (∀ definition ∈ definitions,
        (Catalog.addAll addDefinition catalog definitions).state.Covers definition) ∧
      catalog.Vacant definitions := by
  induction definitions generalizing catalog with
  | nil => exact ⟨sound, .refl catalog, by simp, by simp, by simp⟩
  | cons definition definitions inductionHypothesis =>
      rcases addAll_cons_eq_ok_iff.mp accepted with ⟨here, further⟩
      obtain ⟨soundHere, onward, covers⟩ := sound.indexed.addDefinition here
      obtain ⟨soundThere, beyond, coversRest, vacant⟩ := inductionHypothesis soundHere further
      rw [state_addAll_cons here]
      refine ⟨soundThere, onward.trans beyond, ?_, (vacant_cons_iff here).mpr vacant⟩
      intro other member
      rcases List.mem_cons.mp member with rfl | below
      · exact covers.later beyond
      · exact coversRest other below

/-- Definitions with free names that a settled catalog covers are accepted on the way to
it. -/
theorem Precedes.acceptsAll {catalog goal : Catalog} (towards : Precedes catalog goal)
    (sound : catalog.Sound) (finished : goal.IsSettled) {definitions : List Definition}
    (covers : ∀ definition ∈ definitions, goal.Covers definition)
    (vacant : catalog.Vacant definitions) :
    (Catalog.addAll addDefinition catalog definitions).result = .ok () ∧
      Precedes (Catalog.addAll addDefinition catalog definitions).state goal := by
  induction definitions generalizing catalog with
  | nil => exact ⟨rfl, towards⟩
  | cons definition definitions inductionHypothesis =>
      rw [List.forall_mem_cons] at covers
      obtain ⟨here, onward⟩ := towards.accepts sound.indexed finished covers.1
        (vacant.free definition List.mem_cons_self)
      obtain ⟨soundHere, _⟩ := sound.indexed.addDefinition here
      obtain ⟨further, beyond⟩ := inductionHypothesis onward soundHere covers.2
        ((vacant_cons_iff here).mp vacant)
      rw [addAll_cons_eq_ok_iff, state_addAll_cons here]
      exact ⟨⟨here, further⟩, beyond⟩

/-- Accepted definitions take their own names and no others. -/
theorem contains_addAll {catalog : Catalog} {definitions : List Definition}
    (accepted : (addAll addDefinition catalog definitions).result = .ok ()) (name : String) :
    (addAll addDefinition catalog definitions).state.contains name = true ↔
      catalog.contains name = true ∨
        NameKey.of name ∈ definitions.map (NameKey.of ·.name) := by
  induction definitions generalizing catalog with
  | nil => simp [addAll]
  | cons definition definitions inductionHypothesis =>
      rcases addAll_cons_eq_ok_iff.mp accepted with ⟨here, further⟩
      rw [state_addAll_cons here, inductionHypothesis further, contains_addDefinition here,
        Bool.or_eq_true, decide_eq_true_eq, List.map_cons, List.mem_cons]
      constructor
      · rintro ((same | old) | below)
        · exact Or.inr (Or.inl same.symm)
        · exact Or.inl old
        · exact Or.inr (Or.inr below)
      · rintro (old | same | below)
        · exact Or.inl (Or.inr old)
        · exact Or.inl (Or.inl same.symm)
        · exact Or.inr below

/-! ## The definitions of a catalog -/

theorem absorb_eq_ok_iff {catalog other : Catalog} :
    (catalog.absorb other).result = .ok () ↔
      (addAll addDefinition catalog other.definitions).result = .ok () := by
  rw [definitions, addAll_append_eq_ok_iff, addAll_map, addAll_map]
  change _ ↔ (addAll addEnumTable catalog other.enumTables).result = .ok () ∧
    (addAll addSchema (addAll addEnumTable catalog other.enumTables).state
      other.schemas).result = .ok ()
  simp only [absorb]
  cases (addAll addEnumTable catalog other.enumTables).result with
  | error refusal => simp
  | ok done =>
      cases (addAll addSchema (addAll addEnumTable catalog other.enumTables).state
        other.schemas).result with
      | error refusal => simp
      | ok done => simp

theorem state_absorb {catalog other : Catalog}
    (accepted : (catalog.absorb other).result = .ok ()) :
    (catalog.absorb other).state = (addAll addDefinition catalog other.definitions).state := by
  have whole := absorb_eq_ok_iff.mp accepted
  rw [definitions, addAll_append_eq_ok_iff] at whole
  rw [definitions, state_addAll_append whole.1]
  rw [addAll_map, addAll_map] at whole ⊢
  rcases whole with ⟨enums, schemas⟩
  change (addAll addEnumTable catalog other.enumTables).result = .ok () at enums
  change (addAll addSchema (addAll addEnumTable catalog other.enumTables).state
    other.schemas).result = .ok () at schemas
  simp only [absorb, enums, schemas]
  rfl

/-- A name of a catalog is the name of one of its definitions. -/
theorem Indexed.contains_iff {catalog : Catalog} (indexed : catalog.Indexed)
    {name : String} :
    catalog.contains name = true ↔
      NameKey.of name ∈ catalog.definitions.map (NameKey.of ·.name) := by
  rw [contains, Option.isSome_iff_exists, List.mem_map]
  constructor
  · rintro ⟨entry, meaning⟩
    obtain ⟨definition, found, same⟩ := indexed.held meaning
    exact ⟨definition, mem_definitions_iff_exists.mpr ⟨entry, found⟩, same⟩
  · rintro ⟨definition, member, same⟩
    rcases mem_definitions_iff_exists.mp member with ⟨entry, found⟩
    have meaning := indexed.filed found
    rw [meaning?, same] at meaning
    exact ⟨entry, meaning⟩

/-- The entry of the definition at a position. -/
def entryAt (catalog : Catalog) (position : Nat) : CatalogEntry :=
  if position < catalog.enumTables.length then .enumTable position
  else .schema (position - catalog.enumTables.length)

theorem getElem?_definitions (catalog : Catalog) (position : Nat) :
    catalog.definitions[position]? = catalog.definitionAt? (catalog.entryAt position) := by
  rw [definitions, List.getElem?_append, List.length_map, entryAt]
  split
  · exact List.getElem?_map
  · exact List.getElem?_map

theorem entryAt_injective {catalog : Catalog} {first second : Nat}
    (same : catalog.entryAt first = catalog.entryAt second) : first = second := by
  unfold entryAt at same
  split at same
  · split at same
    · cases same
      rfl
    · cases same
  · split at same
    · cases same
    · have offsets := CatalogEntry.schema.inj same
      omega

/-- No two definitions of a catalog share a name. -/
theorem Indexed.distinct {catalog : Catalog} (indexed : catalog.Indexed) :
    (catalog.definitions.map (NameKey.of ·.name)).Nodup := by
  rw [List.nodup_iff_injective_get]
  rintro ⟨first, firstInside⟩ ⟨second, secondInside⟩ same
  rw [List.length_map] at firstInside secondInside
  simp only [List.get_eq_getElem, List.getElem_map] at same
  have here := catalog.getElem?_definitions first
  have there := catalog.getElem?_definitions second
  rw [List.getElem?_eq_getElem firstInside] at here
  rw [List.getElem?_eq_getElem secondInside] at there
  have meaning := indexed.filed here.symm
  rw [meaning?, same, ← meaning?, indexed.filed there.symm] at meaning
  exact Fin.ext (entryAt_injective (Option.some.inj meaning)).symm

/-- A later catalog covers the definitions of an earlier one. -/
theorem Precedes.covers {earlier later : Catalog} (precedes : Precedes earlier later)
    (indexed : earlier.Indexed) :
    ∀ definition ∈ earlier.definitions, later.Covers definition := by
  intro definition member
  exact precedes.known (indexed.definition?_name member)

/-- A catalog precedes every catalog that covers its definitions. -/
theorem Indexed.precedes {catalog goal : Catalog} (indexed : catalog.Indexed)
    (covers : ∀ definition ∈ catalog.definitions, goal.Covers definition) :
    Precedes catalog goal := by
  constructor
  intro name definition found
  rw [← goal.definition?_congr (indexed.key_of_definition? found)]
  exact covers definition (mem_definitions_of_definition? found)

end Catalog

end Tabula
