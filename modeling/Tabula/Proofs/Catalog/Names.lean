import Tabula.Catalog.Growth
import Tabula.Proofs.Schema.Lookup

/-!
# What the names of a catalog stand for

Schemas and enums live in two lists, but a name stands for one definition of either
sort.  Reading both lists through the entries of the index lets every fact about names
be stated once for both.
-/

namespace Tabula

namespace Definition

/-- The name of a definition. -/
def name : Definition → String
  | .schema added => added.name
  | .enumTable added => added.name

/-- The rows that a definition stands for. -/
def rows : Definition → Schema
  | .schema added => added
  | .enumTable added => added.schema

/-- The definition as a schema, if it is one. -/
def schema? : Definition → Option Schema
  | .schema added => some added
  | .enumTable _ => none

/-- The definition as an enum, if it is one. -/
def enumTable? : Definition → Option Table
  | .schema _ => none
  | .enumTable added => some added

/-! ## Definitions that differ in fields -/

/-- A definition follows another when it is the same enum, or a schema that differs from
the other in fields that correspond. -/
inductive Follows (Related : String → Field → Field → Prop) : Definition → Definition → Prop
  where
  | schema {before after : Schema}
      (follows : Schema.Follows (Related before.name) before after) :
      Follows Related (.schema before) (.schema after)
  | enumTable (table : Table) : Follows Related (.enumTable table) (.enumTable table)

namespace Follows

variable {Related : String → Field → Field → Prop} {before after : Definition}

theorem name (follows : Follows Related before after) : after.name = before.name := by
  cases follows with
  | schema follows => exact follows.name
  | enumTable => rfl

/-- A definition follows itself. -/
theorem refl (reflexive : ∀ schema field, Related schema field field)
    (definition : Definition) : Follows Related definition definition := by
  cases definition with
  | schema added => exact .schema (.refl (reflexive added.name) added)
  | enumTable added => exact .enumTable added

theorem mono {Weaker : String → Field → Field → Prop} (follows : Follows Related before after)
    (weaker : ∀ schema first second, Related schema first second → Weaker schema first second) :
    Follows Weaker before after := by
  cases follows with
  | schema follows => exact .schema (follows.mono (weaker _))
  | enumTable table => exact .enumTable table

/-- Two changes one after the other. -/
theorem trans {Further Whole : String → Field → Field → Prop} {last : Definition}
    (follows : Follows Related before after) (further : Follows Further after last)
    (compose : ∀ {schema first second third}, Related schema first second →
      Further schema second third → Whole schema first third) :
    Follows Whole before last := by
  cases follows with
  | schema follows =>
      cases further with
      | schema further =>
          rw [follows.name] at further
          exact .schema (follows.trans further compose)
  | enumTable table =>
      cases further with
      | enumTable => exact .enumTable table

/-- Definitions that follow each other field by field are equal when the fields are. -/
theorem eq_of_eq {Back : String → Field → Field → Prop} (follows : Follows Related before after)
    (back : Follows Back after before)
    (same : ∀ schema first second, Related schema first second → Back schema second first →
      second = first) : after = before := by
  cases follows with
  | schema follows =>
      cases back with
      | schema back =>
          rw [follows.name] at back
          rw [(follows.combine back (same _)).eq_of_eq]
  | enumTable => rfl

end Follows

end Definition

namespace Catalog

/-! ## Definitions by name -/

/-- The definition that an entry of the index points at. -/
def definitionAt? (catalog : Catalog) : CatalogEntry → Option Definition
  | .schema position => catalog.schemas[position]?.map .schema
  | .enumTable position => catalog.enumTables[position]?.map .enumTable

/-- The definition of the given name. -/
def definition? (catalog : Catalog) (name : String) : Option Definition :=
  (catalog.meaning? name).bind catalog.definitionAt?

/-- The definitions of a catalog in the order in which another takes them in. -/
def definitions (catalog : Catalog) : List Definition :=
  catalog.enumTables.map .enumTable ++ catalog.schemas.map .schema

theorem definition?_congr (catalog : Catalog) {name other : String}
    (same : NameKey.of name = NameKey.of other) :
    catalog.definition? name = catalog.definition? other := by
  rw [definition?, definition?, meaning?, meaning?, same]

theorem schema?_eq_bind (catalog : Catalog) (name : String) :
    catalog.schema? name = (catalog.definition? name).bind Definition.schema? := by
  unfold schema? definition?
  cases catalog.meaning? name with
  | none => rfl
  | some entry =>
      cases entry with
      | schema position =>
          change catalog.schemas[position]? =
            (catalog.schemas[position]?.map Definition.schema).bind Definition.schema?
          cases catalog.schemas[position]? <;> rfl
      | enumTable position =>
          change none =
            (catalog.enumTables[position]?.map Definition.enumTable).bind Definition.schema?
          cases catalog.enumTables[position]? <;> rfl

theorem enumTable?_eq_bind (catalog : Catalog) (name : String) :
    catalog.enumTable? name = (catalog.definition? name).bind Definition.enumTable? := by
  unfold enumTable? definition?
  cases catalog.meaning? name with
  | none => rfl
  | some entry =>
      cases entry with
      | schema position =>
          change none =
            (catalog.schemas[position]?.map Definition.schema).bind Definition.enumTable?
          cases catalog.schemas[position]? <;> rfl
      | enumTable position =>
          change catalog.enumTables[position]? =
            (catalog.enumTables[position]?.map Definition.enumTable).bind Definition.enumTable?
          cases catalog.enumTables[position]? <;> rfl

theorem rowSchema?_eq_map (catalog : Catalog) (name : String) :
    catalog.rowSchema? name = (catalog.definition? name).map Definition.rows := by
  unfold rowSchema? schema? enumTable? definition?
  cases catalog.meaning? name with
  | none => rfl
  | some entry =>
      cases entry with
      | schema position =>
          change catalog.schemas[position]? =
            (catalog.schemas[position]?.map Definition.schema).map Definition.rows
          cases catalog.schemas[position]? <;> rfl
      | enumTable position =>
          change catalog.enumTables[position]?.map Table.schema =
            (catalog.enumTables[position]?.map Definition.enumTable).map Definition.rows
          cases catalog.enumTables[position]? <;> rfl

/-- The definitions are what entries point at. -/
theorem mem_definitions_iff_exists {catalog : Catalog} {definition : Definition} :
    definition ∈ catalog.definitions ↔
      ∃ entry, catalog.definitionAt? entry = some definition := by
  rw [definitions, List.mem_append, List.mem_map, List.mem_map]
  constructor
  · rintro (⟨table, member, rfl⟩ | ⟨schema, member, rfl⟩)
    · obtain ⟨position, found⟩ := List.getElem?_of_mem member
      exact ⟨.enumTable position, by rw [definitionAt?, found]; rfl⟩
    · obtain ⟨position, found⟩ := List.getElem?_of_mem member
      exact ⟨.schema position, by rw [definitionAt?, found]; rfl⟩
  · rintro ⟨entry, found⟩
    cases entry with
    | schema position =>
        rcases Option.map_eq_some_iff.mp found with ⟨schema, here, same⟩
        exact Or.inr ⟨schema, List.mem_of_getElem? here, same⟩
    | enumTable position =>
        rcases Option.map_eq_some_iff.mp found with ⟨table, here, same⟩
        exact Or.inl ⟨table, List.mem_of_getElem? here, same⟩

theorem mem_definitions_of_definition? {catalog : Catalog} {name : String}
    {definition : Definition} (found : catalog.definition? name = some definition) :
    definition ∈ catalog.definitions := by
  rcases Option.bind_eq_some_iff.mp found with ⟨entry, _, here⟩
  exact mem_definitions_iff_exists.mpr ⟨entry, here⟩

theorem schema_mem_definitions {catalog : Catalog} {schema : Schema}
    (member : schema ∈ catalog.schemas) : .schema schema ∈ catalog.definitions :=
  List.mem_append_right _ (List.mem_map_of_mem member)

theorem enumTable_mem_definitions {catalog : Catalog} {table : Table}
    (member : table ∈ catalog.enumTables) : .enumTable table ∈ catalog.definitions :=
  List.mem_append_left _ (List.mem_map_of_mem member)

theorem filterMap_schema?_definitions (catalog : Catalog) :
    catalog.definitions.filterMap Definition.schema? = catalog.schemas := by
  simp [definitions, List.filterMap_map, Function.comp_def, Definition.schema?]

theorem filterMap_enumTable?_definitions (catalog : Catalog) :
    catalog.definitions.filterMap Definition.enumTable? = catalog.enumTables := by
  simp [definitions, List.filterMap_map, Function.comp_def, Definition.enumTable?]

end Catalog

end Tabula
