import Tabula.Proofs.Linkage.Registration
import Tabula.Proofs.Table.Merging

/-!
# Merging partial tables

Linking succeeds when the schemas and the tables can be registered and each schema with
partial tables becomes flat and takes them in.  Partial tables over that very flat schema
are taken in exactly when no two of them share a key, and then the merged table holds the
rows of all of them, one table after another.
-/

namespace Tabula

namespace Linkage

/-! ## The partial tables of one schema -/

theorem mergePartials_cons_eq_ok_iff {merged result table : Table} {tables : List Table} :
    (mergePartials merged (table :: tables)).result = .ok result ↔
      merged.compatible table = true ∧ (merged.merge table).result = .ok () ∧
        (mergePartials (merged.merge table).state tables).result = .ok result := by
  rw [mergePartials]
  cases agree : merged.compatible table with
  | false => simp [Traced.fail]
  | true =>
      cases outcome : (merged.merge table).result with
      | error refusal => simp [outcome]
      | ok done => simp [outcome, Except.bind]

/-- Partial tables over the schema of a table are appended to it when no unique column
comes to hold a key twice. -/
theorem mergePartials_eq_ok_iff {merged result : Table} {tables : List Table}
    (sound : merged.Sound) (obey : ∀ table ∈ tables, table.Obeys)
    (same : ∀ table ∈ tables, table.flat = merged.flat) :
    (mergePartials merged tables).result = .ok result ↔
      (merged.storeRows (tables.flatMap Table.rows)).KeysDistinct ∧
        result = merged.storeRows (tables.flatMap Table.rows) := by
  induction tables generalizing merged with
  | nil =>
      rw [mergePartials, Traced.result_pure, List.flatMap_nil, Table.storeRows_nil,
        Except.ok.injEq]
      constructor
      · rintro rfl
        exact ⟨sound.obeys.unique, rfl⟩
      · rintro ⟨_, rfl⟩
        rfl
  | cons table tables inductionHypothesis =>
      rw [List.forall_mem_cons] at obey same
      have sameFurther : ∀ other ∈ tables, other.flat = (merged.storeRows table.rows).flat := by
        rw [Table.flat_storeRows]
        exact same.2
      rw [mergePartials_cons_eq_ok_iff, List.flatMap_cons, Table.storeRows_append]
      constructor
      · rintro ⟨_, accepted, further⟩
        obtain ⟨state, stored⟩ := sound.state_merge obey.1 same.1 accepted
        rw [state] at further
        exact (inductionHypothesis stored obey.2 sameFurther).mp further
      · rintro ⟨distinct, rfl⟩
        have accepted := (sound.merge_eq_ok_iff obey.1 same.1).mpr distinct.of_storeRows
        obtain ⟨state, stored⟩ := sound.state_merge obey.1 same.1 accepted
        rw [state]
        exact ⟨Table.compatible_of_flat_eq same.1, accepted,
          (inductionHypothesis stored obey.2 sameFurther).mpr ⟨distinct, rfl⟩⟩

theorem mergedTable_eq_ok_iff {linkage : Linkage} {schema : Schema} {partials : List NameKey}
    {result : Table} :
    (linkage.mergedTable schema partials).result = .ok result ↔
      ∃ flat, linkage.flatten schema = .ok flat ∧
        (mergePartials (.ofSchema schema.name flat)
          (partials.filterMap linkage.tables.find?)).result = .ok result := by
  simp only [mergedTable, Traced.bind_eq_ok_iff, Traced.result_ofResult, Traced.result_record,
    Traced.result_pure, Except.ok.injEq, true_and, exists_const, exists_eq_right]

/-- When all tables over a schema are over its flat form, they become one table exactly
when no two of them share a key. -/
theorem Registered.mergedTable_eq_ok_iff {linkage : Linkage} {tables : List Table}
    {key : NameKey} {schema : Schema} {partials : List NameKey} {flat : FlatSchema}
    {result : Table} (registered : linkage.Registered tables)
    (filed : linkage.partials.find? key = some partials)
    (flattened : linkage.flatten schema = .ok flat)
    (obey : ∀ table ∈ tablesOver tables key, table.Obeys)
    (same : ∀ table ∈ tablesOver tables key, table.flat = flat) :
    (linkage.mergedTable schema partials).result = .ok result ↔
      (∀ first ∈ tablesOver tables key, ∀ second ∈ tablesOver tables key, first ≠ second →
        ¬Table.SharesKey flat first second) ∧
      result = (Table.ofSchema schema.name flat).storeRows
        ((tablesOver tables key).flatMap Table.rows) := by
  have taken : partials.filterMap linkage.tables.find? = tablesOver tables key := by
    rw [← registered.partialTablesAt_eq, partialTablesAt, filed]
    rfl
  have different : (tablesOver tables key).Nodup :=
    (List.Nodup.of_map _ registered.distinct).filter _
  rw [Linkage.mergedTable_eq_ok_iff, taken,
    ← Table.keysDistinct_storeRows_iff different obey same]
  constructor
  · rintro ⟨other, flattenedOther, accepted⟩
    rw [flattened, Except.ok.injEq] at flattenedOther
    subst flattenedOther
    exact (mergePartials_eq_ok_iff (Table.sound_ofSchema _ _) obey same).mp accepted
  · intro accepted
    exact ⟨flat, flattened,
      (mergePartials_eq_ok_iff (Table.sound_ofSchema _ _) obey same).mpr accepted⟩

/-! ## The partial tables of all schemas -/

section

variable {linkage : Linkage} {merged result : Registry Table}

theorem mergeAll_cons_of_none {key : NameKey} {schema : Schema}
    {entries : List (NameKey × Schema)} (bare : linkage.partials.find? key = none) :
    linkage.mergeAll merged ((key, schema) :: entries) = linkage.mergeAll merged entries := by
  rw [mergeAll, bare]

theorem mergeAll_cons_eq_ok_iff {key : NameKey} {schema : Schema}
    {entries : List (NameKey × Schema)} {partials : List NameKey}
    (filed : linkage.partials.find? key = some partials) :
    (linkage.mergeAll merged ((key, schema) :: entries)).result = .ok result ↔
      ∃ table, (linkage.mergedTable schema partials).result = .ok table ∧
        (linkage.mergeAll (merged.insert key table) entries).result = .ok result := by
  rw [mergeAll, filed]
  exact Traced.andThen_eq_ok_iff

/-- Merging succeeds when it does for each schema that has partial tables. -/
theorem exists_mergeAll_iff {entries : List (NameKey × Schema)} :
    (∃ result, (linkage.mergeAll merged entries).result = .ok result) ↔
      ∀ key schema, (key, schema) ∈ entries → ∀ partials,
        linkage.partials.find? key = some partials →
          ∃ table, (linkage.mergedTable schema partials).result = .ok table := by
  induction entries generalizing merged with
  | nil =>
      constructor
      · rintro _ key schema ⟨⟩
      · intro _
        exact ⟨merged, rfl⟩
  | cons entry entries inductionHypothesis =>
      rcases entry with ⟨key, schema⟩
      cases filed : linkage.partials.find? key with
      | none =>
          rw [mergeAll_cons_of_none filed, inductionHypothesis]
          constructor
          · intro further other target member partials otherFiled
            rcases List.mem_cons.mp member with same | later
            · cases same
              rw [filed] at otherFiled
              cases otherFiled
            · exact further other target later partials otherFiled
          · intro all other target member
            exact all other target (List.mem_cons_of_mem _ member)
      | some partials =>
          simp only [mergeAll_cons_eq_ok_iff filed]
          constructor
          · rintro ⟨result, table, here, further⟩ other target member others otherFiled
            rcases List.mem_cons.mp member with same | later
            · cases same
              rw [filed, Option.some.injEq] at otherFiled
              exact ⟨table, otherFiled ▸ here⟩
            · exact inductionHypothesis.mp ⟨result, further⟩ other target later others otherFiled
          · intro all
            obtain ⟨table, here⟩ := all key schema List.mem_cons_self partials filed
            have further : ∃ result,
                (linkage.mergeAll (merged.insert key table) entries).result = .ok result := by
              rw [inductionHypothesis]
              intro other target member
              exact all other target (List.mem_cons_of_mem _ member)
            rcases further with ⟨result, accepted⟩
            exact ⟨result, table, here, accepted⟩

/-- The merged table of a schema is filed under its key. -/
theorem find?_of_mergeAll {entries : List (NameKey × Schema)}
    (distinct : (entries.map Prod.fst).Nodup)
    (accepted : (linkage.mergeAll merged entries).result = .ok result) :
    (∀ key, key ∉ entries.map Prod.fst → result.find? key = merged.find? key) ∧
      ∀ key schema partials, (key, schema) ∈ entries →
        linkage.partials.find? key = some partials →
          ∃ table, (linkage.mergedTable schema partials).result = .ok table ∧
            result.find? key = some table := by
  induction entries generalizing merged with
  | nil =>
      cases accepted
      exact ⟨fun _ _ => rfl, fun _ _ _ member => absurd member List.not_mem_nil⟩
  | cons entry entries inductionHypothesis =>
      rcases entry with ⟨key, schema⟩
      rw [List.map_cons, List.nodup_cons] at distinct
      rcases distinct with ⟨absent, further⟩
      cases filed : linkage.partials.find? key with
      | none =>
          rw [mergeAll_cons_of_none filed] at accepted
          obtain ⟨untouched, found⟩ := inductionHypothesis further accepted
          constructor
          · intro other outside
            rw [List.map_cons, List.mem_cons, not_or] at outside
            exact untouched other outside.2
          · intro other target partials member otherFiled
            rcases List.mem_cons.mp member with same | later
            · cases same
              rw [filed] at otherFiled
              cases otherFiled
            · exact found other target partials later otherFiled
      | some partials =>
          rw [mergeAll_cons_eq_ok_iff filed] at accepted
          rcases accepted with ⟨table, here, rest⟩
          obtain ⟨untouched, found⟩ := inductionHypothesis further rest
          constructor
          · intro other outside
            rw [List.map_cons, List.mem_cons, not_or] at outside
            rw [untouched other outside.2, Registry.find?_insert,
              if_neg (Ne.symm outside.1)]
          · intro other target others member otherFiled
            rcases List.mem_cons.mp member with same | later
            · cases same
              rw [filed, Option.some.injEq] at otherFiled
              subst otherFiled
              refine ⟨table, here, ?_⟩
              rw [untouched key absent, Registry.find?_insert, if_pos rfl]
            · exact found other target others later otherFiled

/-- A table is filed under a key when it was before or when the key has partial tables. -/
theorem exists_partials_of_mergeAll {entries : List (NameKey × Schema)}
    (accepted : (linkage.mergeAll merged entries).result = .ok result) {key : NameKey}
    {table : Table} (found : result.find? key = some table) :
    merged.find? key = some table ∨ ∃ partials, linkage.partials.find? key = some partials := by
  induction entries generalizing merged with
  | nil =>
      cases accepted
      exact .inl found
  | cons entry entries inductionHypothesis =>
      rcases entry with ⟨other, schema⟩
      cases filed : linkage.partials.find? other with
      | none =>
          rw [mergeAll_cons_of_none filed] at accepted
          exact inductionHypothesis accepted
      | some partials =>
          obtain ⟨grown, _, further⟩ := (mergeAll_cons_eq_ok_iff filed).mp accepted
          rcases inductionHypothesis further with before | known
          · rw [Registry.find?_insert] at before
            split at before
            · rename_i same
              exact .inr ⟨partials, same ▸ filed⟩
            · exact .inl before
          · exact .inr known

end

/-! ## Linking -/

/-- What a link consists of. -/
theorem link_eq_ok_iff {schemas : List Schema} {tables : List Table} {linkage : Linkage} :
    (link schemas tables).result = .ok linkage ↔
      ∃ base registered merged, schemas.foldlM registerSchema empty = .ok base ∧
        tables.foldlM registerTable base = .ok registered ∧
        (registered.mergeAll .empty registered.schemas.entries).result = .ok merged ∧
        linkage = { registered with merged } := by
  simp only [link, Traced.bind_eq_ok_iff, Traced.result_ofResult, Traced.result_record,
    Traced.result_pure, Except.ok.injEq, true_and, exists_const, exists_and_left,
    eq_comm (b := linkage)]

/-- A linkage that was linked knows the tables that it was given. -/
theorem registered_of_link {schemas : List Schema} {tables : List Table} {linkage : Linkage}
    (linked : (link schemas tables).result = .ok linkage) : linkage.Registered tables := by
  obtain ⟨base, registered, merged, schemasIn, tablesIn, _, rfl⟩ := link_eq_ok_iff.mp linked
  have known := (registered_empty.registerSchemas schemasIn).registerTables tablesIn
  exact ⟨known.schemaNamed, known.tableAt, known.partialsAt, known.schemaKnown, known.distinct⟩

end Linkage

end Tabula
