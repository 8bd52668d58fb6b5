import Tabula.Proofs.Linkage.Embedding

/-!
# Where the refusals of flattening come from

Flattening a schema looks at its own fields, at the elements of its lists and at the fields
of what it embeds.  A refusal always comes from one of these: from a type that nothing has
claimed, from a lookup, from what a settled lookup picks, or from an embedded schema that is
not there or is met again.  Once all columns are found they are flat, so only two columns of
one name, or a counter that fills a column without whole numbers, can still be in the way.
-/

namespace Tabula

/-! ## Flat columns -/

theorem Field.isFlat_eq_of_shape {field other : Field}
    (same : field.head.shape = other.head.shape) : field.isFlat = other.isFlat := by
  simp only [isFlat, same]

namespace Linkage

theorem isFlat_of_scalarColumn {field : Field} {kind : ScalarKind} {reference : Option Reference}
    (shape : field.head.shape = .scalar kind reference) {columns : List Field}
    (accepted : scalarColumn field reference = .ok columns) :
    ∀ column ∈ columns, column.isFlat = true := by
  cases eq_singleton_of_scalarColumn accepted
  rw [List.forall_mem_singleton]
  unfold scalarColumn at accepted
  unfold Field.isFlat
  rw [shape]
  split at accepted
  · rfl
  · rename_i reference
    split at accepted
    · rename_i picked remembers
      simp [remembers, Kind.isScalar]
    · rename_i unknown
      simp [unknown]
    · cases accepted

section

variable {linkage : Linkage} {inline : String → String → Except LinkError (List Field)}

theorem isFlat_of_headColumns
    (inlines : ∀ name target columns, inline name target = .ok columns →
      ∀ column ∈ columns, column.isFlat = true)
    {field : Field} {columns : List Field}
    (accepted : linkage.headColumns inline field = .ok columns) :
    ∀ column ∈ columns, column.isFlat = true := by
  unfold headColumns at accepted
  split at accepted
  · cases accepted
  · simp only [bind_eq_ok_iff, pure_eq_ok_iff] at accepted
    rcases accepted with ⟨inner, inlined, rfl⟩
    intro column member
    rcases List.mem_map.mp member with ⟨below, among, rfl⟩
    rw [← inlines _ _ _ inlined below among]
    apply Field.isFlat_eq_of_shape
    rw [head_embeddedColumn]
  · cases accepted
    exact List.forall_mem_nil _
  · rename_i reference _
    simp only [bind_eq_ok_iff, pure_eq_ok_iff] at accepted
    rcases accepted with ⟨settled, settling, rfl⟩
    rw [List.forall_mem_singleton]
    cases reference with
    | none => cases settling
    | some reference =>
        obtain ⟨_, _, _, _, _, _, same⟩ := head_settleLookup settling
        simp [Field.isFlat, same, Kind.isScalar]
  · rename_i shape
    exact isFlat_of_scalarColumn shape accepted

theorem isFlat_of_fieldColumns
    (inlines : ∀ name target columns, inline name target = .ok columns →
      ∀ column ∈ columns, column.isFlat = true)
    {name : String} {field : Field} {columns : List Field}
    (accepted : linkage.fieldColumns inline name field = .ok columns) :
    ∀ column ∈ columns, column.isFlat = true := by
  induction field generalizing name columns with
  | single head => exact isFlat_of_headColumns inlines accepted
  | withElement head element inductionHypothesis =>
      unfold fieldColumns at accepted
      split at accepted
      · simp only [bind_eq_ok_iff, pure_eq_ok_iff] at accepted
        rcases accepted with ⟨groups, mapped, rfl⟩
        intro column member
        rcases List.mem_map.mp member with ⟨below, among, rfl⟩
        rcases List.mem_flatten.mp among with ⟨group, groupMember, inside⟩
        obtain ⟨position, _, slot⟩ := exists_of_mem_mapM mapped groupMember
        rw [← inductionHypothesis slot below inside]
        apply Field.isFlat_eq_of_shape
        rw [Field.head_makeOptional]
      · exact isFlat_of_headColumns inlines accepted

end

/-- Every column is flat.  The induction is on the schemas that may still be entered. -/
theorem isFlat_of_columns {linkage : Linkage} {path closed : List NameKey}
    {fields columns : List Field} (accepted : linkage.columns path closed fields = .ok columns) :
    ∀ column ∈ columns, column.isFlat = true := by
  induction size : closed.length using Nat.strongRecOn generalizing path closed fields columns with
  | ind size inductionHypothesis =>
      unfold Linkage.columns at accepted
      simp only [bind_eq_ok_iff, pure_eq_ok_iff] at accepted
      rcases accepted with ⟨groups, mapped, rfl⟩
      intro column member
      rcases List.mem_flatten.mp member with ⟨group, groupMember, inside⟩
      obtain ⟨field, _, here⟩ := exists_of_mem_mapM mapped groupMember
      refine isFlat_of_fieldColumns ?_ here column inside
      intro name target columns inlined
      split at inlined
      · cases inlined
      · split at inlined
        · rename_i fresh
          have fewer := length_without_lt fresh
          rw [size] at fewer
          exact inductionHypothesis _ fewer inlined rfl
        · cases inlined

/-! ## Fields below a field -/

/-- Flattening comes from the one field to the other, through elements of lists and fields of
embedded schemas. -/
inductive Below (linkage : Linkage) : Field → Field → Prop where
  | here (field : Field) : Below linkage field field
  | element {field element below : Field} {count : Nat} (shape : field.head.shape = .list count)
      (elementFound : field.element? = some element) (further : Below linkage element below) :
      Below linkage field below
  | child {field child below : Field} {target : Option String} {schema : Schema}
      (shape : field.head.shape = .embedded target)
      (schemaFound : linkage.schema? (target.getD "") = some schema)
      (member : child ∈ schema.fields) (further : Below linkage child below) :
      Below linkage field below

/-- The field itself is refused, as it goes by some name. -/
inductive RefusesHead (linkage : Linkage) (field : Field) : LinkError → Prop where
  | unresolved (name : String) (shape : field.head.shape = .unresolved) :
      RefusesHead linkage field (.unresolved name field.head.typeText)
  | lookup {name : String} {reference : Option Reference} {refusal : LinkError}
      (shape : field.head.shape = .lookup reference)
      (refused : linkage.settleLookup (field.renamed name) reference = .error refusal) :
      RefusesHead linkage field refusal
  | picked {name : String} {kind : ScalarKind} {reference : Reference} {picked : Kind}
      (shape : field.head.shape = .scalar kind (some reference))
      (remembers : reference.pickedKind = some picked) :
      RefusesHead linkage field
        (.nonScalarLookup name reference.table reference.pickedField picked)
  | missing {target : Option String} (name : String)
      (shape : field.head.shape = .embedded target)
      (absent : linkage.schema? (target.getD "") = none) :
      RefusesHead linkage field (.schemaNotFound (target.getD "") name)
  | cycle {target : Option String} (schema : String) (path : List NameKey)
      (shape : field.head.shape = .embedded target) :
      RefusesHead linkage field (.cycle schema path)

/-- The refusal comes from a field below one of the fields. -/
def RefusesBelow (linkage : Linkage) (fields : List Field) (refusal : LinkError) : Prop :=
  ∃ field ∈ fields, ∃ below, linkage.Below field below ∧ linkage.RefusesHead below refusal

section

variable {linkage : Linkage} {inline : String → String → Except LinkError (List Field)}
  {refusal : LinkError}

theorem refusesBelow_of_headColumns {name : String} {field : Field}
    (inlines : ∀ target, field.head.shape = .embedded target →
      inline name (target.getD "") = .error refusal → linkage.RefusesBelow [field] refusal)
    (refused : linkage.headColumns inline (field.renamed name) = .error refusal) :
    linkage.RefusesBelow [field] refusal := by
  have head : (field.renamed name).head = { field.head with name } := Field.head_mapHead _ _
  have here (refuses : linkage.RefusesHead field refusal) : linkage.RefusesBelow [field] refusal :=
    ⟨field, List.mem_cons_self, field, .here field, refuses⟩
  unfold headColumns at refused
  rw [head] at refused
  cases shape : field.head.shape with
  | scalar kind reference =>
      simp only [shape] at refused
      unfold scalarColumn at refused
      split at refused
      · cases refused
      · split at refused
        · cases refused
        · cases refused
        · rename_i picked _ remembers
          cases refused
          exact here (.picked shape remembers)
  | list count =>
      simp only [shape] at refused
      cases refused
  | embedded target =>
      simp only [shape, bind_eq_error_iff, Field.name_renamed] at refused
      rcases refused with inner | ⟨_, _, ⟨⟩⟩
      exact inlines target shape inner
  | lookup reference =>
      simp only [shape, bind_eq_error_iff] at refused
      rcases refused with settling | ⟨_, _, ⟨⟩⟩
      exact here (.lookup shape settling)
  | unresolved =>
      simp only [shape] at refused
      cases refused
      exact here (.unresolved _ shape)

theorem refusesBelow_of_fieldColumns {name : String} {field : Field}
    (inlines : ∀ name target below, inline name (target.getD "") = .error refusal →
      below.head.shape = .embedded target → linkage.RefusesBelow [below] refusal)
    (refused : linkage.fieldColumns inline name field = .error refusal) :
    linkage.RefusesBelow [field] refusal := by
  induction field generalizing name with
  | single head =>
      exact refusesBelow_of_headColumns (fun _ shape inner => inlines _ _ _ inner shape) refused
  | withElement head element inductionHypothesis =>
      unfold fieldColumns at refused
      split at refused
      · rename_i count shape
        rw [bind_eq_error_iff] at refused
        rcases refused with slots | ⟨_, _, ⟨⟩⟩
        rcases exists_of_mapM_eq_error slots with ⟨position, _, slot⟩
        obtain ⟨field, only, below, further, refuses⟩ := inductionHypothesis slot
        cases List.mem_singleton.mp only
        exact ⟨_, List.mem_cons_self, below, .element shape rfl further, refuses⟩
      · exact refusesBelow_of_headColumns (fun _ shape inner => inlines _ _ _ inner shape) refused

end

/-- A refusal of columns comes from a field below.  The induction is on the schemas that may
still be entered. -/
theorem refusesBelow_of_columns {linkage : Linkage} {path closed : List NameKey}
    {fields : List Field} {refusal : LinkError}
    (refused : linkage.columns path closed fields = .error refusal) :
    linkage.RefusesBelow fields refusal := by
  induction size : closed.length using Nat.strongRecOn generalizing path closed fields with
  | ind size inductionHypothesis =>
      unfold Linkage.columns at refused
      rw [bind_eq_error_iff] at refused
      rcases refused with mapped | ⟨_, _, ⟨⟩⟩
      rcases exists_of_mapM_eq_error mapped with ⟨field, member, fieldRefused⟩
      have here : linkage.RefusesBelow [field] refusal := by
        refine refusesBelow_of_fieldColumns ?_ fieldRefused
        intro name target origin inlined shape
        split at inlined
        · rename_i absent
          cases inlined
          exact ⟨origin, List.mem_cons_self, origin, .here origin, .missing name shape absent⟩
        · rename_i schema schemaFound
          by_cases fresh : NameKey.of schema.name ∈ closed
          · simp only [fresh, dif_pos] at inlined
            have fewer := length_without_lt fresh
            rw [size] at fewer
            obtain ⟨child, inside, below, further, refuses⟩ :=
              inductionHypothesis _ fewer inlined rfl
            exact ⟨origin, List.mem_cons_self, below, .child shape schemaFound inside further,
              refuses⟩
          · simp only [fresh, dif_neg, not_false_eq_true] at inlined
            cases inlined
            exact ⟨origin, List.mem_cons_self, origin, .here origin, .cycle _ _ shape⟩
      rcases here with ⟨_, only, below⟩
      cases List.mem_singleton.mp only
      exact ⟨field, member, below⟩

end Linkage

/-! ## Refused schemas -/

/-- Adding fields is refused only for a name that another field has. -/
theorem SchemaData.exists_duplicate_of_addFields {data : SchemaData} {fields : List Field}
    {refusal : SchemaError} (refused : (data.addFields fields).result = .error refusal) :
    ∃ field, refusal = .duplicateField data.name field := by
  induction fields generalizing data with
  | nil => cases refused
  | cons field fields inductionHypothesis =>
      rw [addFields] at refused
      cases here : (data.addField field).result with
      | error rejection =>
          rw [here] at refused
          cases refused
          rw [addField_eq] at here
          split at here
          · cases here
            exact ⟨field.name, rfl⟩
          · cases here
      | ok _ =>
          rw [here] at refused
          have same : (data.addField field).state.name = data.name :=
            congrArg (·.name) (addField_eq_ok here).1
          obtain ⟨other, found⟩ := inductionHypothesis refused
          exact ⟨other, found.trans (congrArg (SchemaError.duplicateField · other) same)⟩

/-- A schema of flat fields is refused only for what its counters fill. -/
theorem FlatSchema.exists_miscounted_of_ofSchema {schema : Schema} {refusal : SchemaError}
    (flat : schema.isFlat = true) (refused : ofSchema schema = .error refusal) :
    ∃ field kind, refusal = .invalidAutoIncrement schema.name field kind := by
  unfold ofSchema at refused
  rw [dif_pos flat] at refused
  split at refused
  · cases refused
    exact ⟨_, _, rfl⟩
  · cases refused

namespace Linkage

/-- Why a schema does not become flat: a field below one of its own is refused, two of its
columns have one name, or a column without whole numbers has a counter. -/
inductive RefusesFlattening (linkage : Linkage) (schema : Schema) : LinkError → Prop where
  | below {refusal : LinkError} (refuses : linkage.RefusesBelow schema.fields refusal) :
      RefusesFlattening linkage schema refusal
  | duplicate {columns : List Field} (field : String)
      (expanded : HaveColumns linkage schema.fields columns)
      (clash : ¬(columns.map (NameKey.of ·.name)).Nodup) :
      RefusesFlattening linkage schema (.refusedSchema (.duplicateField schema.name field))
  | miscounted (field : String) (kind : Kind) :
      RefusesFlattening linkage schema
        (.refusedSchema (.invalidAutoIncrement schema.name field kind))

theorem refusesFlattening_of_flatten {linkage : Linkage} {schema : Schema} {refusal : LinkError}
    (refused : linkage.flatten schema = .error refusal) :
    linkage.RefusesFlattening schema refusal := by
  unfold flatten at refused
  split at refused
  · rename_i flat
    rcases mapError_eq_error_iff.mp refused with ⟨cause, rejected, rfl⟩
    obtain ⟨field, kind, rfl⟩ := FlatSchema.exists_miscounted_of_ofSchema flat rejected
    exact .miscounted field kind
  · simp only [bind_eq_error_iff, mapError_eq_error_iff, mapError_eq_ok_iff] at refused
    rcases refused with
      walk | ⟨columns, expanded, ⟨cause, rejected, rfl⟩ | ⟨grown, added, cause, rejected, rfl⟩⟩
    · exact .below (refusesBelow_of_columns walk)
    · obtain ⟨field, rfl⟩ :=
        SchemaData.exists_duplicate_of_addFields (Schema.ofStep_eq_error_iff.mp rejected)
      refine .duplicate field (haveColumns_of_columns expanded) ?_
      intro distinct
      have room : ∃ result, schema.emptyLike.addFields columns = .ok result :=
        Schema.exists_addFields distinct
      rcases room with ⟨result, added⟩
      rw [rejected] at added
      cases added
    · obtain ⟨kept, fields⟩ := Schema.addFields_eq_ok added
      have flat : grown.isFlat = true := by
        rw [Schema.isFlat, fields, List.all_eq_true]
        exact isFlat_of_columns expanded
      obtain ⟨field, kind, rfl⟩ := FlatSchema.exists_miscounted_of_ofSchema flat rejected
      have name : grown.name = schema.name := congrArg (·.name) kept
      rw [name]
      exact .miscounted field kind

end Linkage

end Tabula
