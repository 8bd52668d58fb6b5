import Tabula.Proofs.Linkage.Extension
import Tabula.Proofs.Linkage.Merging

/-!
# Linking tables over the flat schemas of a linkage

Schemas are linked first without tables.  Tables are then authored over the flat forms
that this linkage gives, and at last everything is linked together.  The flat forms are
the same again, so every table fits the schema that it was made for, and the one thing
that can still go wrong is that two tables of a schema share a key.
-/

namespace Tabula

namespace Linkage

/-- The tables that operations lead to from tables without rows over the flat forms of the
schemas of a linkage. -/
inductive Authored (linkage : Linkage) : Table → Prop where
  | made {schema : String} {flat : FlatSchema} (name : String)
      (flattened : linkage.flatSchema schema = .ok flat) :
      Authored linkage (.ofSchema name flat)
  | step {table : Table} (authored : Authored linkage table) (operation : Table.Operation) :
      Authored linkage (table.perform operation).state

theorem Authored.reachable {linkage : Linkage} {table : Table}
    (authored : linkage.Authored table) : table.Reachable := by
  induction authored with
  | made name _ => exact .start name _
  | step _ operation inductionHypothesis => exact inductionHypothesis.step operation

/-- What a table was made over is the flat form of a schema to the end. -/
theorem Authored.exists_flatSchema {linkage : Linkage} {table : Table}
    (authored : linkage.Authored table) :
    ∃ schema, linkage.flatSchema schema = .ok table.flat := by
  induction authored with
  | made _ flattened => exact ⟨_, flattened⟩
  | step authored operation inductionHypothesis =>
      rwa [(Table.perform_keeps authored.reachable.aligned operation).2]

/-! ## Two linkages -/

/-- A table that was made over the flat form of a schema is a table of that schema. -/
theorem Authored.exists_schema {linkage : Linkage} {tables : List Table} {table : Table}
    (registered : linkage.Registered tables) (authored : linkage.Authored table) :
    ∃ schema, linkage.schemas.find? (.of table.schema.name) = some schema ∧
      linkage.flatten schema = .ok table.flat := by
  rcases authored.exists_flatSchema with ⟨name, flattened⟩
  unfold flatSchema at flattened
  split at flattened
  · cases flattened
  · rename_i schema found
    have same : table.schema.name = schema.name := name_of_flatten flattened
    have key := registered.schemaNamed _ _ found
    rw [same, key]
    exact ⟨schema, found, flattened⟩

section

variable {schemas : List Schema} {tables : List Table} {bare full : Linkage}

/-- Tables over the schemas of a linkage can be registered with those schemas.  What
remains to be done is to merge them. -/
theorem exists_registered (linked : (link schemas []).result = .ok bare)
    (named : (tables.map (NameKey.of ·.name)).Nodup)
    (authored : ∀ table ∈ tables, bare.Authored table) :
    ∃ full : Linkage, full.Registered tables ∧ full.Extends bare ∧
      ∀ linkage, (link schemas tables).result = .ok linkage ↔
        ∃ merged, (full.mergeAll .empty full.schemas.entries).result = .ok merged ∧
          linkage = { full with merged } := by
  have known := registered_of_link linked
  obtain ⟨base, _, _, schemasIn, ⟨⟩, _, rfl⟩ := link_eq_ok_iff.mp linked
  have start := registered_empty.registerSchemas schemasIn
  obtain ⟨full, tablesIn⟩ := start.exists_registerTables_iff.mpr named
  have schemasKept : full.schemas = base.schemas := by
    apply schemas_registerTables _ tablesIn
    intro table member
    obtain ⟨schema, found, _⟩ := (authored table member).exists_schema known
    simp only at found
    rw [Registry.contains, found]
    rfl
  refine ⟨full, start.registerTables tablesIn, ⟨schemasKept, ?_⟩, ?_⟩
  · intro key table found
    rw [known.tableAt] at found
    cases found
  · intro linkage
    simp only [link_eq_ok_iff, schemasIn, tablesIn, Except.ok.injEq, exists_and_left,
      exists_eq_left']

/-- All tables over a schema were made over its flat form, and become one table over it
exactly when no two of them share a key. -/
theorem Registered.exists_flat (known : bare.Registered []) (registered : full.Registered tables)
    (larger : full.Extends bare) (authored : ∀ table ∈ tables, bare.Authored table)
    {key : NameKey} (present : tablesOver tables key ≠ []) :
    ∃ schema partials flat, bare.schemas.find? key = some schema ∧
      full.partials.find? key = some partials ∧ bare.flatten schema = .ok flat ∧
      ∀ result, (full.mergedTable schema partials).result = .ok result ↔
        (∀ first ∈ tablesOver tables key, ∀ second ∈ tablesOver tables key,
          first ≠ second → ¬Table.SharesKey flat first second) ∧
        result = (Table.ofSchema schema.name flat).storeRows
          ((tablesOver tables key).flatMap Table.rows) := by
  have schemaOf : ∀ table ∈ tablesOver tables key, ∃ schema,
      bare.schemas.find? key = some schema ∧ bare.flatten schema = .ok table.flat := by
    intro table member
    rw [tablesOver, List.mem_filter, decide_eq_true_eq] at member
    rcases member with ⟨member, rfl⟩
    exact (authored table member).exists_schema known
  have obey : ∀ table ∈ tablesOver tables key, table.Obeys := by
    intro table member
    exact (authored table (List.mem_of_mem_filter member)).reachable.sound.obeys
  obtain ⟨first, member⟩ := List.exists_mem_of_ne_nil _ present
  obtain ⟨schema, found, flattened⟩ := schemaOf first member
  have same : ∀ table ∈ tablesOver tables key, table.flat = first.flat := by
    intro table otherMember
    obtain ⟨other, otherFound, otherFlattened⟩ := schemaOf table otherMember
    cases found.symm.trans otherFound
    exact Except.ok.inj (otherFlattened.symm.trans flattened)
  have filed := (registered.partialsAt key _).mpr ⟨present, rfl⟩
  refine ⟨schema, _, first.flat, found, filed, flattened, ?_⟩
  intro result
  exact registered.mergedTable_eq_ok_iff filed (larger.flatten flattened) obey same

theorem flatSchema_eq_flatten {name : String} {schema : Schema}
    (found : bare.schemas.find? (.of name) = some schema) :
    bare.flatSchema name = bare.flatten schema := by
  rw [flatSchema, schema?, found]

/-- Merging succeeds exactly when no two tables over one schema share a key. -/
theorem Registered.exists_mergeAll_iff (known : bare.Registered [])
    (registered : full.Registered tables) (larger : full.Extends bare)
    (authored : ∀ table ∈ tables, bare.Authored table) :
    (∃ merged, (full.mergeAll .empty full.schemas.entries).result = .ok merged) ↔
      ∀ schema flat, bare.flatSchema schema = .ok flat →
        ∀ first ∈ tablesOver tables (.of schema), ∀ second ∈ tablesOver tables (.of schema),
          first ≠ second → ¬Table.SharesKey flat first second := by
  rw [Linkage.exists_mergeAll_iff]
  constructor
  · intro merges name flat flattened first member second otherMember
    obtain ⟨schema, partials, form, found, filed, formed, mergesTo⟩ :=
      known.exists_flat registered larger authored (List.ne_nil_of_mem member)
    rw [flatSchema_eq_flatten found, formed, Except.ok.injEq] at flattened
    subst flattened
    have entry : (NameKey.of name, schema) ∈ full.schemas.entries := by
      rwa [← Registry.find?_eq_some_iff, larger.schemas]
    obtain ⟨result, accepted⟩ := merges _ schema entry partials filed
    exact ((mergesTo result).mp accepted).1 first member second otherMember
  · intro apart key other entry others otherFiled
    obtain ⟨present, _⟩ := (registered.partialsAt key others).mp otherFiled
    obtain ⟨schema, partials, flat, found, filed, formed, mergesTo⟩ :=
      known.exists_flat registered larger authored present
    rw [← Registry.find?_eq_some_iff, larger.schemas, found, Option.some.injEq] at entry
    rw [filed, Option.some.injEq] at otherFiled
    subst entry otherFiled
    -- The key is that of the name of its schema, of which the hypothesis speaks.
    obtain rfl := known.schemaNamed key schema found
    have flattened := (flatSchema_eq_flatten found).trans formed
    exact ⟨_, (mergesTo _).mpr ⟨apart _ flat flattened, rfl⟩⟩

end

/-- Tables with different names that were made over the flat schemas of a linkage can be
linked with its schemas exactly when no two of them over one schema hold cells with one
key in a unique column.  The merged table of a schema is then over its flat form and has
the rows of its tables, one table after another. -/
theorem authored_tables_link_back {schemas : List Schema} {tables : List Table}
    {bare : Linkage} (linked : (link schemas []).result = .ok bare)
    (named : (tables.map (NameKey.of ·.name)).Nodup)
    (authored : ∀ table ∈ tables, bare.Authored table) :
    ((∃ linkage, (link schemas tables).result = .ok linkage) ↔
      ∀ schema flat, bare.flatSchema schema = .ok flat →
        ∀ first ∈ tablesOver tables (.of schema), ∀ second ∈ tablesOver tables (.of schema),
          first ≠ second → ¬Table.SharesKey flat first second) ∧
    ∀ linkage, (link schemas tables).result = .ok linkage →
      ∀ schema, tablesOver tables (.of schema) ≠ [] →
        ∃ flat merged, bare.flatSchema schema = .ok flat ∧
          linkage.mergedTable? schema = some merged ∧ merged.flat = flat ∧
          merged.rows = (tablesOver tables (.of schema)).flatMap Table.rows := by
  have known := registered_of_link linked
  obtain ⟨full, registered, larger, parts⟩ := exists_registered linked named authored
  constructor
  · rw [← known.exists_mergeAll_iff registered larger authored]
    constructor
    · rintro ⟨linkage, linkedAll⟩
      obtain ⟨merged, mergedAll, _⟩ := (parts linkage).mp linkedAll
      exact ⟨merged, mergedAll⟩
    · rintro ⟨merged, mergedAll⟩
      exact ⟨_, (parts _).mpr ⟨merged, mergedAll, rfl⟩⟩
  · intro linkage linkedAll name present
    obtain ⟨merged, mergedAll, rfl⟩ := (parts linkage).mp linkedAll
    obtain ⟨schema, partials, flat, found, filed, formed, mergesTo⟩ :=
      known.exists_flat registered larger authored present
    have entry : (NameKey.of name, schema) ∈ full.schemas.entries := by
      rwa [← Registry.find?_eq_some_iff, larger.schemas]
    obtain ⟨_, each⟩ := find?_of_mergeAll full.schemas.distinct mergedAll
    obtain ⟨table, accepted, held⟩ := each _ schema partials entry filed
    obtain ⟨_, rfl⟩ := (mergesTo table).mp accepted
    refine ⟨flat, _, (flatSchema_eq_flatten found).trans formed, held, ?_, ?_⟩
    · exact Table.flat_storeRows _ _
    · exact Table.rows_storeRows _ _

/-! ## Concrete tables -/

/-- Guests with codes that no two of them share, and the places they come from. -/
def guestSchema : Schema where
  name := "Guest"
  fields :=
    [.single
      { name := "code", typeText := "string", unique := true
        shape := .scalar .text none },
    .embedded "home" "Place"]
  distinct := by decide +kernel

def guestSchemas : List Schema :=
  [guestSchema, placeSchema, zoneSchema]

/-- The guests of two seasons. -/
def guestTables (flat : FlatSchema) : List Table :=
  [((Table.ofSchema "Spring" flat).perform
      (.addRows [[some (.text "A1")], [some (.text "B2"), some (.text "Bergen")]])).state,
    ((Table.ofSchema "Autumn" flat).perform (.addRow [some (.text "C3")])).state]

/-- A guest from the zone that stands for an empty cell. -/
def guestRow (code city : String) : Row :=
  [some (.text code), some (.text city),
    some (.integer .bits16 ⟨7, by decide, by decide⟩)]

theorem guestTables_link_back :
    ∃ bare flat linkage merged, (link guestSchemas []).result = .ok bare ∧
      bare.flatSchema "guest" = .ok flat ∧
      (∀ table ∈ guestTables flat, bare.Authored table) ∧
      (link guestSchemas (guestTables flat)).result = .ok linkage ∧
      linkage.mergedTable? "guest" = some merged ∧ merged.flat = flat ∧
      merged.rows = [guestRow "A1" "Oslo", guestRow "B2" "Bergen", guestRow "C3" "Oslo"] := by
  have computed : (do
      let bare ← (link guestSchemas []).result
      let flat ← bare.flatSchema "guest"
      let _ ← (link guestSchemas (guestTables flat)).result
      return ((guestTables flat).map Table.name,
        (tablesOver (guestTables flat) (.of "guest")).flatMap Table.rows)) =
      .ok (["Spring", "Autumn"],
        [guestRow "A1" "Oslo", guestRow "B2" "Bergen", guestRow "C3" "Oslo"]) := by
    decide +kernel
  simp only [bind_eq_ok_iff, pure_eq_ok_iff, Prod.mk.injEq] at computed
  rcases computed with ⟨bare, linked, flat, flattened, linkage, linkedAll, names, rows⟩
  have named : ((guestTables flat).map (NameKey.of ·.name)).Nodup := by
    rw [← Function.comp_def NameKey.of, ← List.map_map, names]
    decide +kernel
  have authored : ∀ table ∈ guestTables flat, bare.Authored table := by
    simp only [guestTables, List.forall_mem_cons]
    exact ⟨.step (.made _ flattened) _, .step (.made _ flattened) _, List.forall_mem_nil _⟩
  have present : tablesOver (guestTables flat) (.of "guest") ≠ [] := by
    intro absent
    rw [absent] at rows
    cases rows
  obtain ⟨form, merged, formed, held, same, concatenated⟩ :=
    (authored_tables_link_back linked named authored).2 linkage linkedAll "guest" present
  cases flattened.symm.trans formed
  exact ⟨bare, flat, linkage, merged, linked, flattened, authored, linkedAll, held, same,
    concatenated.trans rows⟩

end Linkage

end Tabula
