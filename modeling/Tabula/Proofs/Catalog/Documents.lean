import Tabula.Proofs.Catalog.Grounding
import Tabula.Proofs.Definition.Enums

/-!
# What the definitions of documents have in common

Every definition of a catalog of documents was read from one of them, and has since been
settled field by field.  So it has every property that readings have and that settling
keeps.  Enums are never changed, and settling a field leaves its name alone.
-/

namespace Tabula

namespace Catalog

/-- What holds of every definition that is read, and is kept where fields are settled, holds
of all definitions of a catalog of documents. -/
theorem Documented.forall_definitions {Holds : Definition → Prop}
    (read : ∀ {options tree definition},
      (Definition.readDefinition options tree).result = .ok definition → Holds definition)
    (advances : ∀ {catalog : Catalog} {before after : Definition},
      before.Follows catalog.Advances after → Holds before → Holds after)
    {catalog : Catalog} (documented : catalog.Documented) :
    ∀ definition ∈ catalog.definitions, Holds definition := by
  induction documented with
  | empty => exact List.forall_mem_nil _
  | read accepted =>
      obtain ⟨definitions, document, added, rfl⟩ := read_eq_ok_iff.mp accepted
      intro definition member
      obtain ⟨origin, impossible | given, follows⟩ := sound_empty.origin_of_addAll added _ member
      · cases impossible
      · exact advances follows (Definition.forall_of_readDocument read document origin given)
  | @absorb catalog other documented _ here there =>
      cases outcome : (catalog.absorb other).result with
      | error refusal =>
          rw [(absorb_of_refused outcome).1]
          exact here
      | ok done =>
          rw [state_absorb outcome]
          intro definition member
          obtain ⟨origin, old | new, follows⟩ :=
            documented.grounded.1.origin_of_addAll (absorb_eq_ok_iff.mp outcome) _ member
          · exact advances follows (here origin old)
          · exact advances follows (there origin new)

/-- The definition is a schema whose fields have names, or an enum that was read. -/
def IsRead : Definition → Prop
  | .schema schema => ∀ field ∈ schema.fields, Text.isName field.name.toList = true
  | .enumTable table =>
    ∃ header body, (Definition.readEnumTable header body).result = .ok table

theorem isRead_of_readDefinition {options : Options} {tree : Json} {definition : Definition}
    (accepted : (Definition.readDefinition options tree).result = .ok definition) :
    IsRead definition := by
  rcases Definition.readDefinition_cases accepted with
    ⟨entries, schema, read, rfl⟩ | ⟨header, body, table, read, rfl⟩
  · refine Definition.forall_fields_of_readSchema ?_ read
    intro name tree field isName fieldRead
    rw [(Definition.written_of_readField fieldRead).named]
    exact isName
  · exact ⟨header, body, read⟩

theorem IsRead.advances {catalog : Catalog} {before after : Definition}
    (follows : before.Follows catalog.Advances after) (isRead : IsRead before) : IsRead after := by
  cases follows with
  | enumTable table => exact isRead
  | schema follows =>
      intro field member
      obtain ⟨position, found⟩ := List.getElem?_of_mem member
      obtain ⟨start, startFound, advances⟩ :=
        exists_getElem?_of_forall₂ follows.symm.fields found
      have named := (Advances.keepsKind advances).1
      rw [named]
      exact isRead start (List.mem_of_getElem? startFound)

/-- Each enum of a catalog of documents was read. -/
theorem Documented.exists_read {catalog : Catalog} (documented : catalog.Documented)
    {table : Table} (member : table ∈ catalog.enumTables) :
    ∃ header body, (Definition.readEnumTable header body).result = .ok table :=
  documented.forall_definitions isRead_of_readDefinition IsRead.advances (.enumTable table)
    (enumTable_mem_definitions member)

/-- Each field of a schema of documents has a name. -/
theorem Documented.isName {catalog : Catalog} (documented : catalog.Documented)
    {schema : Schema} (member : schema ∈ catalog.schemas) :
    ∀ field ∈ schema.fields, Text.isName field.name.toList = true :=
  documented.forall_definitions isRead_of_readDefinition IsRead.advances (.schema schema)
    (schema_mem_definitions member)

end Catalog

end Tabula
