import Tabula.Proofs.Catalog.Fixpoint

/-!
# Adding definitions

A definition is added in two steps: the catalog grows by it, and the grown catalog is
settled.  Both steps lead towards any catalog that has all the definitions and nothing
left to settle, whatever was added before.
-/

namespace Tabula

namespace Catalog

/-! ## The grown catalog -/

/-- The catalog with one more definition, before anything is settled. -/
def grown (catalog : Catalog) : Definition → Catalog
  | .schema schema =>
    { catalog with
      schemas := catalog.schemas ++ [schema]
      names := catalog.names.insert (.of schema.name) (.schema catalog.schemas.length)
      pending :=
        if schema.isPending then catalog.pending ++ [catalog.schemas.length]
        else catalog.pending }
  | .enumTable table =>
    { catalog with
      enumTables := catalog.enumTables ++ [table]
      names := catalog.names.insert (.of table.name) (.enumTable catalog.enumTables.length) }

/-- What the name of a definition means once it is added. -/
def entryOf (catalog : Catalog) : Definition → CatalogEntry
  | .schema _ => .schema catalog.schemas.length
  | .enumTable _ => .enumTable catalog.enumTables.length

theorem result_settleGrown (grown : Catalog) (undo : Catalog → Catalog) :
    (settleGrown grown undo).result = grown.settle.result.map fun _ => () := by
  simp only [settleGrown]
  cases grown.settle.result <;> rfl

theorem state_settleGrown {grown : Catalog} {undo : Catalog → Catalog}
    (accepted : (settleGrown grown undo).result = .ok ()) :
    (settleGrown grown undo).state = grown.settle.state := by
  simp only [settleGrown] at accepted ⊢
  cases outcome : grown.settle.result with
  | ok total => rfl
  | error refusal =>
      rw [outcome] at accepted
      cases accepted

theorem addDefinition_of_taken {catalog : Catalog} {definition : Definition}
    (taken : catalog.contains definition.name = true) :
    catalog.addDefinition definition = ⟨catalog, [], .error (nameTaken definition.name)⟩ := by
  cases definition with
  | schema schema => exact if_pos taken
  | enumTable table => exact if_pos taken

/-- What is put back when a grown catalog does not settle. -/
def setBack (catalog : Catalog) : Definition → Catalog → Catalog
  | .schema schema, reached =>
    { reached with
      schemas := catalog.schemas
      pending := catalog.pending
      names := reached.names.erase (.of schema.name) }
  | .enumTable table, reached =>
    { reached with
      schemas := catalog.schemas
      pending := catalog.pending
      enumTables := reached.enumTables.dropLast
      names := reached.names.erase (.of table.name) }

theorem addDefinition_of_vacant {catalog : Catalog} {definition : Definition}
    (vacant : catalog.contains definition.name = false) :
    catalog.addDefinition definition =
      settleGrown (catalog.grown definition) (catalog.setBack definition) := by
  have free : ¬catalog.contains definition.name = true := by simp [vacant]
  cases definition with
  | schema schema => exact if_neg free
  | enumTable table => exact if_neg free

/-- A definition is accepted exactly when its name is free and the grown catalog
settles. -/
theorem addDefinition_eq_ok_iff {catalog : Catalog} {definition : Definition} :
    (catalog.addDefinition definition).result = .ok () ↔
      catalog.contains definition.name = false ∧
        ∃ total, (catalog.grown definition).settle.result = .ok total := by
  cases free : catalog.contains definition.name with
  | true =>
      rw [addDefinition_of_taken free]
      simp
  | false =>
      rw [addDefinition_of_vacant free, result_settleGrown, map_eq_ok_iff]
      simp

theorem state_addDefinition {catalog : Catalog} {definition : Definition}
    (accepted : (catalog.addDefinition definition).result = .ok ()) :
    (catalog.addDefinition definition).state = (catalog.grown definition).settle.state := by
  rcases addDefinition_eq_ok_iff.mp accepted with ⟨vacant, _⟩
  rw [addDefinition_of_vacant vacant] at accepted ⊢
  exact state_settleGrown accepted

theorem meaning?_grown (catalog : Catalog) (definition : Definition) (name : String) :
    (catalog.grown definition).meaning? name =
      if NameKey.of definition.name = NameKey.of name then some (catalog.entryOf definition)
      else catalog.meaning? name := by
  cases definition with
  | schema schema => exact Registry.find?_insert _ _ _ _
  | enumTable table => exact Registry.find?_insert _ _ _ _

theorem contains_eq_false_iff {catalog : Catalog} {name : String} :
    catalog.contains name = false ↔ catalog.meaning? name = none := by
  rw [contains, Option.isSome_eq_false_iff, Option.isNone_iff_eq_none]

/-- A definition that is added takes a free name and leaves the others alone. -/
theorem meaning?_grown_of_meaning? {catalog : Catalog} {definition : Definition}
    (vacant : catalog.contains definition.name = false) {name : String} {entry : CatalogEntry}
    (meaning : catalog.meaning? name = some entry) :
    (catalog.grown definition).meaning? name = some entry := by
  rw [meaning?_grown, if_neg, meaning]
  intro same
  rw [contains_eq_false_iff, meaning?, same, ← meaning?, meaning] at vacant
  cases vacant

theorem definitionAt?_grown {catalog : Catalog} (added : Definition) {entry : CatalogEntry}
    {definition : Definition} (found : catalog.definitionAt? entry = some definition) :
    (catalog.grown added).definitionAt? entry = some definition := by
  cases entry with
  | schema position =>
      rcases Option.map_eq_some_iff.mp found with ⟨schema, here, rfl⟩
      have inside := (List.getElem?_eq_some_iff.mp here).1
      cases added with
      | schema added => rw [definitionAt?, grown, List.getElem?_append_left inside, here]; rfl
      | enumTable added => exact found
  | enumTable position =>
      rcases Option.map_eq_some_iff.mp found with ⟨table, here, rfl⟩
      have inside := (List.getElem?_eq_some_iff.mp here).1
      cases added with
      | schema added => exact found
      | enumTable added => rw [definitionAt?, grown, List.getElem?_append_left inside, here]; rfl

/-- The new entry points at the new definition. -/
theorem definitionAt?_entryOf (catalog : Catalog) (added : Definition) :
    (catalog.grown added).definitionAt? (catalog.entryOf added) = some added := by
  cases added with
  | schema added => simp [definitionAt?, entryOf, grown]
  | enumTable added => simp [definitionAt?, entryOf, grown]

/-- A member of a longer list was there before or is the last. -/
theorem getElem?_append_singleton {α : Type} {members : List α} {last member : α}
    {position : Nat} (found : (members ++ [last])[position]? = some member) :
    members[position]? = some member ∨ position = members.length ∧ member = last := by
  rw [List.getElem?_append] at found
  split at found
  · exact Or.inl found
  · rw [List.getElem?_singleton] at found
    split at found
    · cases found
      exact Or.inr ⟨by omega, rfl⟩
    · cases found

/-- Only the new entry points at anything that was not there before. -/
theorem definitionAt?_of_grown {catalog : Catalog} {added : Definition}
    {entry : CatalogEntry} {definition : Definition}
    (found : (catalog.grown added).definitionAt? entry = some definition) :
    catalog.definitionAt? entry = some definition ∨
      entry = catalog.entryOf added ∧ definition = added := by
  cases entry with
  | schema position =>
      cases added with
      | schema added =>
          rcases Option.map_eq_some_iff.mp found with ⟨schema, here, rfl⟩
          rcases getElem?_append_singleton here with old | ⟨rfl, rfl⟩
          · exact Or.inl (by rw [definitionAt?, old]; rfl)
          · exact Or.inr ⟨rfl, rfl⟩
      | enumTable added => exact Or.inl found
  | enumTable position =>
      cases added with
      | schema added => exact Or.inl found
      | enumTable added =>
          rcases Option.map_eq_some_iff.mp found with ⟨table, here, rfl⟩
          rcases getElem?_append_singleton here with old | ⟨rfl, rfl⟩
          · exact Or.inl (by rw [definitionAt?, old]; rfl)
          · exact Or.inr ⟨rfl, rfl⟩

theorem definition?_grown {catalog : Catalog} {added : Definition}
    (vacant : catalog.contains added.name = false) {name : String} {definition : Definition}
    (found : catalog.definition? name = some definition) :
    (catalog.grown added).definition? name = some definition := by
  rcases Option.bind_eq_some_iff.mp found with ⟨entry, meaning, here⟩
  rw [definition?, meaning?_grown_of_meaning? vacant meaning]
  exact definitionAt?_grown added here

theorem definition?_grown_name (catalog : Catalog) (added : Definition) :
    (catalog.grown added).definition? added.name = some added := by
  rw [definition?, meaning?_grown, if_pos rfl]
  exact definitionAt?_entryOf catalog added

/-- Growing takes a catalog on its way. -/
theorem precedes_grown {catalog : Catalog} {added : Definition}
    (vacant : catalog.contains added.name = false) :
    Precedes catalog (catalog.grown added) := by
  constructor
  intro name definition found
  exact ⟨definition, definition?_grown vacant found,
    .refl (Advances.refl (catalog.grown added)) definition⟩

/-! ## The index of the grown catalog -/

/-- Which of the old positions wait stays as it was. -/
theorem isPendingAt_grown {catalog : Catalog} (added : Definition) {position : Nat}
    (inside : position < catalog.schemas.length) :
    (catalog.grown added).isPendingAt position = catalog.isPendingAt position := by
  cases added with
  | schema added => rw [isPendingAt, grown, List.getElem?_append_left inside]; rfl
  | enumTable added => rfl

theorem waiting_grown {catalog : Catalog} (indexed : catalog.Indexed) (added : Definition) :
    (catalog.grown added).pending =
      (List.range (catalog.grown added).schemas.length).filter
        (catalog.grown added).isPendingAt := by
  have old : (List.range catalog.schemas.length).filter
      (catalog.grown added).isPendingAt = catalog.pending := by
    rw [indexed.waiting]
    apply List.filter_congr
    intro position member
    exact isPendingAt_grown added (List.mem_range.mp member)
  cases added with
  | schema added =>
      have last : (catalog.grown (.schema added)).isPendingAt catalog.schemas.length =
          added.isPending := by
        simp [isPendingAt, grown]
      have length : (catalog.grown (.schema added)).schemas.length =
          catalog.schemas.length + 1 := List.length_append
      rw [length, List.range_succ, List.filter_append, old, List.filter_singleton, last]
      cases waiting : added.isPending <;> simp [grown, waiting]
  | enumTable added => exact old.symm

theorem Indexed.grown {catalog : Catalog} (indexed : catalog.Indexed) {added : Definition}
    (vacant : catalog.contains added.name = false) : (catalog.grown added).Indexed := by
  constructor
  · intro entry definition found
    rcases definitionAt?_of_grown found with old | ⟨rfl, rfl⟩
    · exact meaning?_grown_of_meaning? vacant (indexed.filed old)
    · rw [meaning?_grown]
      exact if_pos rfl
  · intro name entry meaning
    rw [meaning?_grown] at meaning
    split at meaning
    · rename_i same
      cases meaning
      exact ⟨added, definitionAt?_entryOf catalog added, same⟩
    · obtain ⟨definition, found, same⟩ := indexed.held meaning
      exact ⟨definition, definitionAt?_grown added found, same⟩
  · exact waiting_grown indexed added

/-- What a grown catalog knows, it knew before or has been given. -/
theorem definition?_of_grown {catalog : Catalog} (indexed : catalog.Indexed)
    {added : Definition} {name : String} {definition : Definition}
    (found : (catalog.grown added).definition? name = some definition) :
    catalog.definition? name = some definition ∨
      definition = added ∧ NameKey.of added.name = NameKey.of name := by
  rw [definition?, meaning?_grown] at found
  split at found
  · rename_i same
    rw [Option.bind_some, definitionAt?_entryOf] at found
    cases found
    exact Or.inr ⟨rfl, same⟩
  · left
    rcases Option.bind_eq_some_iff.mp found with ⟨entry, meaning, there⟩
    obtain ⟨old, here, _⟩ := indexed.held meaning
    rw [definitionAt?_grown added here] at there
    rw [definition?, meaning]
    exact here.trans there

end Catalog

end Tabula
