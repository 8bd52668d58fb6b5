import Tabula.Proofs.Linkage.Flattening

/-!
# Flattening in a larger linkage

Flattening reads the schemas of a linkage, and the tables only where a lookup names
something that is not a schema.  Registering tables over known schemas therefore takes no
flat form away and changes none: a chain of lookups that has an end keeps it, for it meets
the same schemas on its way and may visit more places.
-/

namespace Tabula

namespace Linkage

/-- The larger linkage has the schemas of the smaller one, and at least its tables. -/
structure Extends (larger smaller : Linkage) : Prop where
  schemas : larger.schemas = smaller.schemas
  tables : ∀ key table, smaller.tables.find? key = some table →
    larger.tables.find? key = some table

namespace Extends

variable {larger smaller : Linkage}

theorem schema?_eq (extension : larger.Extends smaller) (name : String) :
    larger.schema? name = smaller.schema? name := by
  rw [schema?, extension.schemas, schema?]

theorem rowSchema? (extension : larger.Extends smaller) {name : String} {schema : Schema}
    (found : smaller.rowSchema? name = some schema) :
    larger.rowSchema? name = some schema := by
  rw [Linkage.rowSchema?, Option.or_eq_some_iff] at found ⊢
  rw [extension.schema?_eq]
  rcases found with direct | ⟨absent, through⟩
  · exact .inl direct
  · rw [Option.map_eq_some_iff] at through
    rcases through with ⟨table, tableFound, rfl⟩
    exact .inr ⟨absent, by rw [table?, extension.tables _ _ tableFound]; rfl⟩

theorem steps (extension : larger.Extends smaller) {step : String}
    (member : step ∈ smaller.steps) : step ∈ larger.steps := by
  simp only [Linkage.steps, List.mem_append, List.mem_flatMap] at member ⊢
  rcases member with inSchema | ⟨⟨key, table⟩, filed, here⟩
  · rw [extension.schemas]
    exact .inl inSchema
  · have found := extension.tables key table (Registry.find?_eq_some_iff.mpr filed)
    exact .inr ⟨(key, table), Registry.find?_eq_some_iff.mp found, here⟩

/-- A chain that has an end keeps it. -/
theorem chainKind (extension : larger.Extends smaller) {origin table field : String}
    {unvisited further : List String} {kind : ScalarKind}
    (wider : ∀ step ∈ unvisited, step ∈ further)
    (followed : smaller.chainKind origin table field unvisited = .ok kind) :
    larger.chainKind origin table field further = .ok kind := by
  fun_induction Linkage.chainKind smaller origin table field unvisited
    generalizing further with
  | case1 => cases followed
  | case2 => cases followed
  | case3 table field unvisited schema schemaFound target fieldFound found reference shape =>
      cases followed
      unfold Linkage.chainKind
      simp only [extension.rowSchema? schemaFound, fieldFound, shape]
  | case4 => cases followed
  | case5 table field unvisited schema schemaFound target fieldFound step fresh next shape =>
      rename_i inductionHypothesis
      unfold Linkage.chainKind
      simp only [extension.rowSchema? schemaFound, fieldFound, shape]
      rw [dif_pos (wider _ fresh)]
      apply inductionHypothesis _ followed
      intro other left
      rw [mem_without] at left ⊢
      exact ⟨wider other left.1, left.2⟩
  | case6 => cases followed
  | case7 => cases followed

theorem settleLookup (extension : larger.Extends smaller) {field settled : Field}
    {reference : Option Reference}
    (accepted : smaller.settleLookup field reference = .ok settled) :
    larger.settleLookup field reference = .ok settled := by
  cases reference with
  | none => cases accepted
  | some reference =>
      simp only [Linkage.settleLookup, bind_eq_ok_iff] at accepted ⊢
      rcases accepted with ⟨keyKind, key, pickedKind, picked, settling⟩
      have wider : ∀ step ∈ smaller.steps, step ∈ larger.steps := fun _ => extension.steps
      exact ⟨keyKind, extension.chainKind wider key, pickedKind,
        extension.chainKind wider picked, settling⟩

section

variable {inline inlineLarger : String → String → Except LinkError (List Field)}

theorem headColumns (extension : larger.Extends smaller)
    (inlines : ∀ name target columns, inline name target = .ok columns →
      inlineLarger name target = .ok columns)
    {field : Field} {columns : List Field}
    (accepted : smaller.headColumns inline field = .ok columns) :
    larger.headColumns inlineLarger field = .ok columns := by
  unfold Linkage.headColumns at accepted ⊢
  split
  · rename_i shape
    simp only [shape] at accepted
    cases accepted
  · rename_i target shape
    simp only [shape, bind_eq_ok_iff] at accepted ⊢
    rcases accepted with ⟨inner, inlined, same⟩
    exact ⟨inner, inlines _ _ _ inlined, same⟩
  · rename_i count shape
    simpa only [shape] using accepted
  · rename_i reference shape
    simp only [shape, bind_eq_ok_iff] at accepted ⊢
    rcases accepted with ⟨settled, settling, same⟩
    exact ⟨settled, extension.settleLookup settling, same⟩
  · rename_i kind reference shape
    simpa only [shape] using accepted

theorem fieldColumns (extension : larger.Extends smaller)
    (inlines : ∀ name target columns, inline name target = .ok columns →
      inlineLarger name target = .ok columns)
    {name : String} {field : Field} {columns : List Field}
    (accepted : smaller.fieldColumns inline name field = .ok columns) :
    larger.fieldColumns inlineLarger name field = .ok columns := by
  induction field generalizing name columns with
  | single head => exact extension.headColumns inlines accepted
  | withElement head element inductionHypothesis =>
      unfold Linkage.fieldColumns at accepted ⊢
      split
      · rename_i count shape
        simp only [shape, bind_eq_ok_iff, mapM_eq_ok_iff] at accepted ⊢
        rcases accepted with ⟨groups, each, same⟩
        exact ⟨groups, each.imp fun _ _ here => inductionHypothesis here, same⟩
      · rename_i notList
        split at accepted
        · rename_i count shape
          exact absurd shape (notList count)
        · exact extension.headColumns inlines accepted

end

/-- The induction is on the schemas that may still be entered. -/
theorem columns (extension : larger.Extends smaller) {path closed : List NameKey}
    {fields columns : List Field}
    (accepted : smaller.columns path closed fields = .ok columns) :
    larger.columns path closed fields = .ok columns := by
  induction size : closed.length using Nat.strongRecOn generalizing path closed fields columns with
  | ind size inductionHypothesis =>
      unfold Linkage.columns at accepted ⊢
      simp only [bind_eq_ok_iff, mapM_eq_ok_iff] at accepted ⊢
      rcases accepted with ⟨groups, each, same⟩
      refine ⟨groups, each.imp fun field group here => extension.fieldColumns ?_ here, same⟩
      intro name target inner inlined
      rw [extension.schema?_eq]
      split at inlined
      · cases inlined
      · rename_i schema schemaFound
        split at inlined
        · rename_i fresh
          have fewer := length_without_lt fresh
          rw [size] at fewer
          rw [dif_pos fresh]
          exact inductionHypothesis _ fewer inlined rfl
        · cases inlined

/-- A schema that becomes flat in a linkage becomes the same in a larger one. -/
theorem flatten (extension : larger.Extends smaller) {schema : Schema} {flat : FlatSchema}
    (flattened : smaller.flatten schema = .ok flat) : larger.flatten schema = .ok flat := by
  unfold Linkage.flatten at flattened ⊢
  split
  · rename_i already
    rwa [if_pos already] at flattened
  · rename_i nested
    rw [if_neg nested] at flattened
    simp only [bind_eq_ok_iff] at flattened ⊢
    rcases flattened with ⟨columns, expanded, further⟩
    rw [extension.schemas]
    exact ⟨columns, extension.columns expanded, further⟩

end Extends

/-- A schema that becomes flat keeps its name. -/
theorem name_of_flatten {linkage : Linkage} {schema : Schema} {flat : FlatSchema}
    (flattened : linkage.flatten schema = .ok flat) : flat.schema.name = schema.name := by
  unfold flatten at flattened
  split at flattened
  · rw [mapError_eq_ok_iff] at flattened
    rw [FlatSchema.schema_of_ofSchema flattened]
  · simp only [bind_eq_ok_iff, mapError_eq_ok_iff] at flattened
    rcases flattened with ⟨columns, _, grown, added, accepted⟩
    have kept := congrArg Schema.name (Schema.addFields_eq_ok added).1
    rw [FlatSchema.schema_of_ofSchema accepted]
    exact kept

end Linkage

end Tabula
