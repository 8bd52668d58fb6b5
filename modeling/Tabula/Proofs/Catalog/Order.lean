import Tabula.Proofs.Catalog.Settling

/-!
# Catalogs on the way to other catalogs

A catalog precedes another when the other has all of its definitions, each field being
either as it was or what the later catalog makes of it.  As a settlement survives in
later catalogs and happens to a field only once, this is a partial order on what names
stand for.
-/

namespace Tabula

namespace Catalog

/-- The field is as it was, or as the catalog settles it. -/
def Advances (catalog : Catalog) (schema : String) (before after : Field) : Prop :=
  after = before ∨ catalog.settleField schema before = .ok (some after)

/-- The later catalog has everything that the earlier one has, settled or as it was. -/
abbrev Precedes (earlier later : Catalog) : Prop :=
  Follows later.Advances earlier later

/-- Nothing is left to settle. -/
def IsSettled (catalog : Catalog) : Prop :=
  ∀ schema ∈ catalog.schemas, ∀ field ∈ schema.fields,
    catalog.settleField schema.name field = .ok none

theorem mem_schemas_of_definition? {catalog : Catalog} {name : String} {schema : Schema}
    (found : catalog.definition? name = some (.schema schema)) : schema ∈ catalog.schemas := by
  rw [← catalog.filterMap_schema?_definitions, List.mem_filterMap]
  exact ⟨.schema schema, mem_definitions_of_definition? found, rfl⟩

/-! ## Fields -/

namespace Advances

variable {catalog earlier later : Catalog} {schema : String} {before after : Field}

theorem refl (catalog : Catalog) (schema : String) (field : Field) :
    catalog.Advances schema field field :=
  Or.inl rfl

theorem keepsKind (advances : catalog.Advances schema before after) :
    KeepsKind before after := by
  rcases advances with rfl | settled
  · exact ⟨rfl, Or.inr rfl⟩
  · have settles := settles_of_settleField settled
    exact ⟨settles.name, settles.kind⟩

/-- What an earlier catalog makes of a field, a later one makes of it too. -/
theorem informed (advances : earlier.Advances schema before after)
    (informs : Informs earlier later) : later.Advances schema before after := by
  rcases advances with same | settled
  · exact Or.inl same
  · exact Or.inr (informs.settleField_eq settled (by simp))

/-- A field advances at most once. -/
theorem trans {last : Field} (advances : catalog.Advances schema before after)
    (further : catalog.Advances schema after last) : catalog.Advances schema before last := by
  rcases advances with rfl | settled
  · exact further
  · rcases further with rfl | again
    · exact Or.inr settled
    · rw [settleField_of_settles catalog schema (settles_of_settleField settled)] at again
      cases again

/-- Two catalogs that each take a field to where the other has it agree on it. -/
theorem antisymm (forth : later.Advances schema before after)
    (back : earlier.Advances schema after before) : after = before := by
  rcases forth with same | settled
  · exact same
  · rcases back with same | again
    · exact same.symm
    · rw [settleField_of_settles earlier schema (settles_of_settleField settled)] at again
      cases again

/-- A field that has advanced part of the way ends where it would have ended at once,
provided nothing is left to settle there. -/
theorem resume {last : Field} (part : catalog.Advances schema before after)
    (whole : catalog.Advances schema before last)
    (finished : catalog.settleField schema last = .ok none) :
    catalog.Advances schema after last := by
  rcases part with rfl | settled
  · exact whole
  · rcases whole with rfl | reached
    · rw [settled] at finished
      cases finished
    · rw [settled] at reached
      cases reached
      exact Or.inl rfl

end Advances

/-- A schema whose fields have advanced part of the way ends where it would have ended at
once, provided nothing is left to settle there. -/
theorem resume_fields {earlier catalog : Catalog} {name : String} {before after last : Schema}
    (part : Schema.Follows (earlier.Advances name) before after)
    (whole : Schema.Follows (catalog.Advances name) before last)
    (informs : Informs earlier catalog)
    (finished : ∀ field ∈ last.fields, catalog.settleField name field = .ok none) :
    Schema.Follows (catalog.Advances name) after last := by
  -- From the end back to the start, and on to where the fields are.
  refine Schema.Follows.symm ((whole.symm.relying finished).trans part ?_)
  rintro third first second ⟨calm, onward⟩ here
  exact (here.informed informs).resume onward calm

/-! ## Catalogs -/

namespace Precedes

variable {earlier middle later : Catalog}

theorem refl (catalog : Catalog) : Precedes catalog catalog := by
  constructor
  intro name definition found
  exact ⟨definition, found, .refl (Advances.refl catalog) definition⟩

theorem informs (precedes : Precedes earlier later) : Informs earlier later := by
  constructor
  intro name definition found
  obtain ⟨reached, foundLater, follows⟩ := precedes.known found
  exact ⟨reached, foundLater, follows.mono fun _ _ _ advances => advances.keepsKind⟩

theorem trans (first : Precedes earlier middle) (second : Precedes middle later) :
    Precedes earlier later := by
  constructor
  intro name definition found
  obtain ⟨between, foundBetween, onward⟩ := first.known found
  obtain ⟨reached, foundLater, further⟩ := second.known foundBetween
  refine ⟨reached, foundLater, onward.trans further ?_⟩
  intro schema one two three here next
  exact (Advances.informed here second.informs).trans next

/-- Catalogs that precede each other have the same definitions. -/
theorem definition?_eq (forth : Precedes earlier later) (back : Precedes later earlier)
    (name : String) : later.definition? name = earlier.definition? name := by
  cases found : earlier.definition? name with
  | some definition =>
      obtain ⟨reached, foundLater, onward⟩ := forth.known found
      obtain ⟨again, foundAgain, backward⟩ := back.known foundLater
      rw [found] at foundAgain
      cases foundAgain
      rw [foundLater, onward.eq_of_eq backward fun _ _ _ here there => here.antisymm there]
  | none =>
      cases foundLater : later.definition? name with
      | none => rfl
      | some reached =>
          obtain ⟨definition, foundEarlier, _⟩ := back.known foundLater
          rw [found] at foundEarlier
          cases foundEarlier

end Precedes

end Catalog

end Tabula
