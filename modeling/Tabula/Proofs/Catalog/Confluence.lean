import Tabula.Proofs.Catalog.Coverage

/-!
# Order and grouping of definitions

A list of definitions has at most one closure: a settled catalog that covers them and
precedes every other settled catalog that does.  Adding the definitions one after
another reaches the closure in any order, and so does adding them to two catalogs first
and letting one take in the other.  If either way fails, there is no closure or two
definitions share a name, and the other way fails too.
-/

namespace Tabula

/-- The two sorts of definitions. -/
inductive DefinitionSort where
  | schema
  | enumTable
  deriving DecidableEq

/-- The sort of what a name means. -/
def CatalogEntry.sort : CatalogEntry → DefinitionSort
  | schema _ => .schema
  | enumTable _ => .enumTable

/-- The sort of a definition. -/
def Definition.sort : Definition → DefinitionSort
  | .schema _ => .schema
  | .enumTable _ => .enumTable

namespace Catalog

/-! ## Two ways to the same definitions -/

/-- The catalog that definitions make when they are added one after another. -/
def ofDefinitions (definitions : List Definition) : Except DefinitionError Catalog :=
  let step := addAll addDefinition empty definitions
  step.result.map fun _ => step.state

/-- The catalog that definitions make when they are added to two catalogs and the first
takes in the second. -/
def ofParts (first second : List Definition) : Except DefinitionError Catalog := do
  let left ← ofDefinitions first
  let right ← ofDefinitions second
  let step := left.absorb right
  step.result.map fun _ => step.state

/-- The sort of definition that a name is bound to. -/
def sort? (catalog : Catalog) (name : String) : Option DefinitionSort :=
  (catalog.meaning? name).map CatalogEntry.sort

/-- The catalogs bind every name to the same sort of definition and to the same schema or
enum, and have no others. -/
structure SameMeaning (left right : Catalog) : Prop where
  sort (name : String) : left.sort? name = right.sort? name
  schema (name : String) : left.schema? name = right.schema? name
  enumTable (name : String) : left.enumTable? name = right.enumTable? name
  schemas : left.schemas.Perm right.schemas
  enumTables : left.enumTables.Perm right.enumTables

/-- Both ways fail, or both succeed with the same meaning. -/
def Agree : Except DefinitionError Catalog → Except DefinitionError Catalog → Prop
  | .ok left, .ok right => SameMeaning left right
  | .error _, .error _ => True
  | _, _ => False

/-! ## The closure of a list of definitions -/

/-- No two definitions share a name. -/
def Distinct (definitions : List Definition) : Prop :=
  (definitions.map (NameKey.of ·.name)).Nodup

/-- The smallest settled catalog with the given definitions. -/
structure IsClosure (catalog : Catalog) (definitions : List Definition) : Prop where
  sound : catalog.Sound
  covers : ∀ definition ∈ definitions, catalog.Covers definition
  least {goal : Catalog} : goal.IsSettled →
    (∀ definition ∈ definitions, goal.Covers definition) → Precedes catalog goal

theorem IsClosure.perm {catalog : Catalog} {definitions others : List Definition}
    (closure : catalog.IsClosure definitions) (reordered : others.Perm definitions) :
    catalog.IsClosure others := by
  constructor
  · exact closure.sound
  · intro definition member
    exact closure.covers definition (reordered.mem_iff.mp member)
  · intro goal finished covers
    apply closure.least finished
    intro definition member
    exact covers definition (reordered.mem_iff.mpr member)

theorem Distinct.perm {definitions others : List Definition} (distinct : Distinct definitions)
    (reordered : others.Perm definitions) : Distinct others :=
  (reordered.map _).nodup_iff.mpr distinct

theorem sort_of_definitionAt? {catalog : Catalog} {entry : CatalogEntry}
    {definition : Definition} (found : catalog.definitionAt? entry = some definition) :
    entry.sort = definition.sort := by
  cases entry with
  | schema position =>
      rcases Option.map_eq_some_iff.mp found with ⟨schema, _, rfl⟩
      rfl
  | enumTable position =>
      rcases Option.map_eq_some_iff.mp found with ⟨table, _, rfl⟩
      rfl

/-- A name is bound to the sort of the definition that it stands for. -/
theorem Indexed.sort?_eq {catalog : Catalog} (indexed : catalog.Indexed) (name : String) :
    catalog.sort? name = (catalog.definition? name).map Definition.sort := by
  unfold sort? definition?
  cases meaning : catalog.meaning? name with
  | none => rfl
  | some entry =>
      obtain ⟨definition, found, _⟩ := indexed.held meaning
      rw [Option.bind_some, found, Option.map_some, Option.map_some, sort_of_definitionAt? found]

/-- Catalogs that precede each other mean the same. -/
theorem sameMeaning_of_precedes {left right : Catalog} (leftIndexed : left.Indexed)
    (rightIndexed : right.Indexed) (forth : Precedes left right) (back : Precedes right left) :
    SameMeaning left right := by
  have same := back.definition?_eq forth
  have definitions : left.definitions.Perm right.definitions := by
    rw [List.perm_ext_iff_of_nodup leftIndexed.distinct.of_map rightIndexed.distinct.of_map]
    intro definition
    rw [leftIndexed.mem_definitions_iff, rightIndexed.mem_definitions_iff, same]
  constructor
  · intro name
    rw [leftIndexed.sort?_eq, rightIndexed.sort?_eq, same]
  · intro name
    rw [schema?_eq_bind, schema?_eq_bind, same]
  · intro name
    rw [enumTable?_eq_bind, enumTable?_eq_bind, same]
  · rw [← left.filterMap_schema?_definitions, ← right.filterMap_schema?_definitions]
    exact definitions.filterMap _
  · rw [← left.filterMap_enumTable?_definitions, ← right.filterMap_enumTable?_definitions]
    exact definitions.filterMap _

/-- There is at most one closure. -/
theorem IsClosure.unique {left right : Catalog} {definitions : List Definition}
    (first : left.IsClosure definitions) (second : right.IsClosure definitions) :
    SameMeaning left right :=
  sameMeaning_of_precedes first.sound.indexed second.sound.indexed
    (first.least second.sound.settled second.covers)
    (second.least first.sound.settled first.covers)

/-! ## One after another -/

theorem ofDefinitions_eq_ok_iff {definitions : List Definition} {catalog : Catalog} :
    ofDefinitions definitions = .ok catalog ↔
      (addAll addDefinition empty definitions).result = .ok () ∧
        (addAll addDefinition empty definitions).state = catalog := by
  simp only [ofDefinitions, map_eq_ok_iff]
  constructor
  · rintro ⟨_, accepted, same⟩
    exact ⟨accepted, same⟩
  · rintro ⟨accepted, same⟩
    exact ⟨(), accepted, same⟩

theorem vacant_empty_iff {definitions : List Definition} :
    empty.Vacant definitions ↔ Distinct definitions := by
  constructor
  · exact Vacant.distinct
  · intro distinct
    constructor
    · intro definition _
      rfl
    · exact distinct

theorem precedes_empty (goal : Catalog) : Precedes empty goal := by
  constructor
  intro name definition found
  cases found

/-- Definitions that are accepted have distinct names, and make their closure. -/
theorem isClosure_of_ofDefinitions {definitions : List Definition} {catalog : Catalog}
    (accepted : ofDefinitions definitions = .ok catalog) :
    Distinct definitions ∧ catalog.IsClosure definitions := by
  rcases ofDefinitions_eq_ok_iff.mp accepted with ⟨added, rfl⟩
  obtain ⟨sound, _, covers, vacant⟩ := sound_empty.addAll added
  refine ⟨vacant.distinct, sound, covers, ?_⟩
  intro goal finished goalCovers
  exact ((precedes_empty goal).acceptsAll sound_empty finished goalCovers vacant).2

/-- Definitions with distinct names are accepted if a settled catalog covers them. -/
theorem exists_ofDefinitions {definitions : List Definition} {goal : Catalog}
    (distinct : Distinct definitions) (finished : goal.IsSettled)
    (covers : ∀ definition ∈ definitions, goal.Covers definition) :
    ∃ catalog, ofDefinitions definitions = .ok catalog := by
  have added := (precedes_empty goal).acceptsAll sound_empty finished covers
    (vacant_empty_iff.mpr distinct)
  exact ⟨_, ofDefinitions_eq_ok_iff.mpr ⟨added.1, rfl⟩⟩

/-- The names of the catalog of a list are those of the list. -/
theorem contains_ofDefinitions {definitions : List Definition} {catalog : Catalog}
    (accepted : ofDefinitions definitions = .ok catalog) {name : String} :
    catalog.contains name = true ↔ NameKey.of name ∈ definitions.map (NameKey.of ·.name) := by
  rcases ofDefinitions_eq_ok_iff.mp accepted with ⟨added, rfl⟩
  rw [contains_addAll added]
  constructor
  · rintro (old | here)
    · cases old
    · exact here
  · exact Or.inr

/-! ## In two parts -/

theorem ofParts_eq_ok_iff {first second : List Definition} {catalog : Catalog} :
    ofParts first second = .ok catalog ↔
      ∃ left right, ofDefinitions first = .ok left ∧ ofDefinitions second = .ok right ∧
        (left.absorb right).result = .ok () ∧ (left.absorb right).state = catalog := by
  simp only [ofParts, bind_eq_ok_iff, map_eq_ok_iff]
  constructor
  · rintro ⟨left, here, right, there, _, taken, same⟩
    exact ⟨left, right, here, there, taken, same⟩
  · rintro ⟨left, right, here, there, taken, same⟩
    exact ⟨left, here, right, there, (), taken, same⟩

/-- If the second part finds its names free, no name is in both parts. -/
theorem distinct_of_vacant {first second : List Definition} {left right : Catalog}
    (here : ofDefinitions first = .ok left) (there : ofDefinitions second = .ok right)
    (vacant : left.Vacant right.definitions) : Distinct (first ++ second) := by
  obtain ⟨firstDistinct, _⟩ := isClosure_of_ofDefinitions here
  obtain ⟨secondDistinct, closure⟩ := isClosure_of_ofDefinitions there
  rw [Distinct, List.map_append, List.nodup_append]
  refine ⟨firstDistinct, secondDistinct, ?_⟩
  rintro key inFirst _ inSecond rfl
  rcases List.mem_map.mp inSecond with ⟨definition, _, rfl⟩
  have taken := closure.sound.indexed.contains_iff.mp ((contains_ofDefinitions there).mpr inSecond)
  rcases List.mem_map.mp taken with ⟨other, member, same⟩
  rw [← same] at inFirst
  have free := vacant.free other member
  rw [(contains_ofDefinitions here).mpr inFirst] at free
  cases free

theorem vacant_of_distinct {first second : List Definition} {left right : Catalog}
    (here : ofDefinitions first = .ok left) (there : ofDefinitions second = .ok right)
    (distinct : Distinct (first ++ second)) : left.Vacant right.definitions := by
  have indexed := (isClosure_of_ofDefinitions there).2.sound.indexed
  rw [Distinct, List.map_append, List.nodup_append] at distinct
  constructor
  · intro definition member
    rw [Bool.eq_false_iff]
    intro taken
    have inFirst := (contains_ofDefinitions here).mp taken
    have inSecond := (contains_ofDefinitions there).mp
      (indexed.contains_iff.mpr (List.mem_map.mpr ⟨definition, member, rfl⟩))
    exact distinct.2.2 _ inFirst _ inSecond rfl
  · exact indexed.distinct

/-- Parts that are joined have distinct names, and make the closure of all
definitions. -/
theorem isClosure_of_ofParts {first second : List Definition} {catalog : Catalog}
    (accepted : ofParts first second = .ok catalog) :
    Distinct (first ++ second) ∧ catalog.IsClosure (first ++ second) := by
  rcases ofParts_eq_ok_iff.mp accepted with ⟨left, right, here, there, taken, rfl⟩
  obtain ⟨_, leftClosure⟩ := isClosure_of_ofDefinitions here
  obtain ⟨_, rightClosure⟩ := isClosure_of_ofDefinitions there
  have added := absorb_eq_ok_iff.mp taken
  obtain ⟨sound, onward, covers, vacant⟩ := leftClosure.sound.addAll added
  have fromRight := rightClosure.sound.indexed.precedes covers
  rw [state_absorb taken]
  refine ⟨distinct_of_vacant here there vacant, sound, ?_, ?_⟩
  · intro definition member
    rcases List.mem_append.mp member with inFirst | inSecond
    · exact (leftClosure.covers definition inFirst).later onward
    · exact (rightClosure.covers definition inSecond).later fromRight
  · intro goal finished goalCovers
    rw [List.forall_mem_append] at goalCovers
    have leftTowards := leftClosure.least finished goalCovers.1
    have rightTowards := rightClosure.least finished goalCovers.2
    exact (leftTowards.acceptsAll leftClosure.sound finished
      (rightTowards.covers rightClosure.sound.indexed) vacant).2

/-- Parts with distinct names are joined if a settled catalog covers all definitions. -/
theorem exists_ofParts {first second : List Definition} {goal : Catalog}
    (distinct : Distinct (first ++ second)) (finished : goal.IsSettled)
    (covers : ∀ definition ∈ first ++ second, goal.Covers definition) :
    ∃ catalog, ofParts first second = .ok catalog := by
  have parts := distinct
  rw [Distinct, List.map_append, List.nodup_append] at parts
  rw [List.forall_mem_append] at covers
  obtain ⟨left, here⟩ := exists_ofDefinitions parts.1 finished covers.1
  obtain ⟨right, there⟩ := exists_ofDefinitions parts.2.1 finished covers.2
  obtain ⟨_, leftClosure⟩ := isClosure_of_ofDefinitions here
  obtain ⟨_, rightClosure⟩ := isClosure_of_ofDefinitions there
  have leftTowards := leftClosure.least finished covers.1
  have rightTowards := rightClosure.least finished covers.2
  have added := leftTowards.acceptsAll leftClosure.sound finished
    (rightTowards.covers rightClosure.sound.indexed) (vacant_of_distinct here there distinct)
  exact ⟨_, ofParts_eq_ok_iff.mpr
    ⟨left, right, here, there, absorb_eq_ok_iff.mpr added.1, rfl⟩⟩

/-! ## Order and grouping -/

/-- Ways that each succeed exactly when there is a closure, and then reach it, agree. -/
theorem agree_of_closure (definitions : List Definition)
    {left right : Except DefinitionError Catalog}
    (leftReaches : ∀ {catalog}, left = .ok catalog →
      Distinct definitions ∧ catalog.IsClosure definitions)
    (rightReaches : ∀ {catalog}, right = .ok catalog →
      Distinct definitions ∧ catalog.IsClosure definitions)
    (leftExists : ∀ {goal : Catalog}, Distinct definitions → goal.IsClosure definitions →
      ∃ catalog, left = .ok catalog)
    (rightExists : ∀ {goal : Catalog}, Distinct definitions → goal.IsClosure definitions →
      ∃ catalog, right = .ok catalog) : Agree left right := by
  cases left with
  | error refusal =>
      cases right with
      | error other => exact trivial
      | ok catalog =>
          obtain ⟨distinct, closure⟩ := rightReaches rfl
          obtain ⟨reached, impossible⟩ := leftExists distinct closure
          cases impossible
  | ok catalog =>
      obtain ⟨distinct, closure⟩ := leftReaches rfl
      cases right with
      | error refusal =>
          obtain ⟨reached, impossible⟩ := rightExists distinct closure
          cases impossible
      | ok other => exact closure.unique (rightReaches rfl).2

/-- Neither the order of definitions nor their grouping into two catalogs matters. -/
theorem definitions_commute (definitions : List Definition) :
    (∀ others : List Definition, others.Perm definitions →
      Agree (ofDefinitions definitions) (ofDefinitions others)) ∧
    ∀ first second : List Definition, (first ++ second).Perm definitions →
      Agree (ofDefinitions definitions) (ofParts first second) := by
  constructor
  · intro others reordered
    apply agree_of_closure definitions
    · exact isClosure_of_ofDefinitions
    · intro catalog accepted
      obtain ⟨distinct, closure⟩ := isClosure_of_ofDefinitions accepted
      exact ⟨distinct.perm reordered.symm, closure.perm reordered.symm⟩
    · intro goal distinct closure
      exact exists_ofDefinitions distinct closure.sound.settled closure.covers
    · intro goal distinct closure
      have same := closure.perm reordered
      exact exists_ofDefinitions (distinct.perm reordered) same.sound.settled same.covers
  · intro first second reordered
    apply agree_of_closure definitions
    · exact isClosure_of_ofDefinitions
    · intro catalog accepted
      obtain ⟨distinct, closure⟩ := isClosure_of_ofParts accepted
      exact ⟨distinct.perm reordered.symm, closure.perm reordered.symm⟩
    · intro goal distinct closure
      exact exists_ofDefinitions distinct closure.sound.settled closure.covers
    · intro goal distinct closure
      have same := closure.perm reordered
      exact exists_ofParts (distinct.perm reordered) same.sound.settled same.covers

/-- Loot names an item by its kind. -/
def lootSchema : Schema where
  name := "Loot"
  fields := [.lookup "what" { table := "Item", keyField := "kind", pickedField := "id" }]

/-- The kind of an item is an entry of an enum. -/
def itemKindSchema : Schema where
  name := "Item"
  fields := [.ofKind "id" (.scalar (.integer .bits32)), .unresolved "kind" "Kind"]
  distinct := by decide +kernel

/-- The columns of the enum. -/
def kindSchema : Schema where
  name := "Kind"
  fields :=
    [.ofKind Definition.enumNameField (.scalar .text),
      .ofKind Definition.enumValueField (.scalar (.integer .bits8)),
      .ofKind Definition.enumCommentField (.scalar .text)]
  distinct := by decide +kernel

/-- The enum of kinds, without entries. -/
def kindTable : Table :=
  .ofSchema "Kind" ⟨kindSchema, by decide, by decide⟩

/-- Loot waits for items, and those for the enum. -/
def lootDefinitions : List Definition :=
  [.schema lootSchema, .schema itemKindSchema, .enumTable kindTable]

theorem lootDefinitions_commute :
    ((ofDefinitions lootDefinitions).toOption.bind fun catalog =>
        ((catalog.schema? "loot").bind (·.field? "what")).map Field.kind) =
      some (.scalar .text) ∧
    Agree (ofDefinitions lootDefinitions)
      (ofDefinitions [.enumTable kindTable, .schema itemKindSchema, .schema lootSchema]) ∧
    Agree (ofDefinitions lootDefinitions)
      (ofParts [.schema itemKindSchema] [.enumTable kindTable, .schema lootSchema]) := by
  have reversed : List.Perm
      [.enumTable kindTable, .schema itemKindSchema, .schema lootSchema] lootDefinitions :=
    List.reverse_perm lootDefinitions
  have rotated : List.Perm
      ([.schema itemKindSchema] ++ [.enumTable kindTable, .schema lootSchema])
      lootDefinitions :=
    List.perm_append_singleton (Definition.schema lootSchema)
      [Definition.schema itemKindSchema, Definition.enumTable kindTable]
  refine ⟨by decide +kernel, ?_, ?_⟩
  · exact (definitions_commute lootDefinitions).1 _ reversed
  · exact (definitions_commute lootDefinitions).2 _ _ rotated

end Catalog

end Tabula
