import Mathlib.Logic.Relation
import Tabula.Proofs.Linkage.Flattening

/-!
# Which schemas embed which

A schema embeds another through an embedded field, or through the elements of a list that
has some, however deeply lists are nested.  A schema that becomes flat reaches no cycle of
embeddings: its leaves could not be listed otherwise.  And when a schema is refused for a
cycle, the path that is reported walks along embeddings, from the schema to one that it has
come to before.
-/

namespace Tabula

/-- The field inlines the schema of a name: it embeds the schema, or it is a list that has
elements, and they do. -/
inductive Field.Inlines : Field → String → Prop where
  | embedded {field : Field} {target : Option String}
      (shape : field.head.shape = .embedded target) : Inlines field (target.getD "")
  | element {field element : Field} {count : Nat} {target : String}
      (shape : field.head.shape = .list count) (elementFound : field.element? = some element)
      (filled : 0 < count) (inner : Inlines element target) : Inlines field target

namespace Linkage

variable {linkage : Linkage}

/-- The schema filed under a key has a field that inlines the schema of another key. -/
def Embeds (linkage : Linkage) (outer inner : NameKey) : Prop :=
  ∃ schema, linkage.schemas.find? outer = some schema ∧
    ∃ field ∈ schema.fields, ∃ target, field.Inlines target ∧ NameKey.of target = inner

/-- Embedding leads from a schema to one that embeds itself, directly or through others. -/
def ReachesCycle (linkage : Linkage) (start : NameKey) : Prop :=
  ∃ key, Relation.ReflTransGen linkage.Embeds start key ∧
    Relation.TransGen linkage.Embeds key key

/-! ## Schemas that become flat -/

/-- No cycle is reached from where every walk along embeddings ends. -/
theorem not_reachesCycle_of_acc {start : NameKey}
    (ends : Acc (flip linkage.Embeds) start) : ¬linkage.ReachesCycle start := by
  induction ends with
  | intro start _ inductionHypothesis =>
      rintro ⟨key, reached, cycle⟩
      rcases reached.cases_head with rfl | ⟨next, first, further⟩
      · -- The cycle starts here, so it is also one of the schema that comes next on it.
        rcases Relation.TransGen.head'_iff.mp cycle with ⟨next, first, back⟩
        exact inductionHypothesis next first ⟨next, .refl, .tail' back first⟩
      · exact inductionHypothesis next first ⟨key, further, cycle⟩

/-- The walks from what an expanded field inlines end: what is inlined is expanded too. -/
theorem Expands.acc_of_inlines {field : Field} {leaves : List Leaf}
    (expands : Expands linkage field leaves) {target : String}
    (inlines : field.Inlines target) : Acc (flip linkage.Embeds) (.of target) := by
  induction expands generalizing target with
  | scalar shape =>
      cases inlines with
      | embedded otherShape => cases shape.symm.trans otherShape
      | element otherShape => cases shape.symm.trans otherShape
  | lookup shape =>
      cases inlines with
      | embedded otherShape => cases shape.symm.trans otherShape
      | element otherShape => cases shape.symm.trans otherShape
  | bareList shape bare =>
      cases inlines with
      | embedded otherShape => cases shape.symm.trans otherShape
      | element _ elementFound => cases bare.symm.trans elementFound
  | list shape elementFound _ inductionHypothesis =>
      cases inlines with
      | embedded otherShape => cases shape.symm.trans otherShape
      | element otherShape otherFound filled inner =>
          cases shape.symm.trans otherShape
          cases elementFound.symm.trans otherFound
          exact inductionHypothesis 0 filled inner
  | embedded shape schemaFound _ inductionHypothesis =>
      cases inlines with
      | element otherShape => cases shape.symm.trans otherShape
      | embedded otherShape =>
          cases shape.symm.trans otherShape
          constructor
          rintro inner ⟨schema, found, child, member, further, inlinesFurther, rfl⟩
          cases schemaFound.symm.trans found
          exact inductionHypothesis child member inlinesFurther

/-- The fields of a schema that becomes flat are expanded. -/
theorem haveColumns_of_flatten {schema : Schema} {flat : FlatSchema}
    (flattened : linkage.flatten schema = .ok flat) :
    HaveColumns linkage schema.fields flat.fields := by
  unfold flatten at flattened
  split at flattened
  · rename_i already
    rw [mapError_eq_ok_iff] at flattened
    rw [FlatSchema.fields, FlatSchema.schema_of_ofSchema flattened]
    exact haveColumns_of_isFlat already
  · simp only [bind_eq_ok_iff, mapError_eq_ok_iff] at flattened
    rcases flattened with ⟨columns, expanded, grown, added, accepted⟩
    rw [FlatSchema.fields, FlatSchema.schema_of_ofSchema accepted,
      (Schema.addFields_eq_ok added).2]
    exact haveColumns_of_columns expanded

/-- A schema that becomes flat reaches no cycle of embeddings. -/
theorem not_reachesCycle_of_flatten {key : NameKey} {schema : Schema} {flat : FlatSchema}
    (found : linkage.schemas.find? key = some schema)
    (flattened : linkage.flatten schema = .ok flat) : ¬linkage.ReachesCycle key := by
  obtain ⟨_, ⟨leavesOf, expands, _⟩, _⟩ := haveColumns_of_flatten flattened
  apply not_reachesCycle_of_acc
  constructor
  rintro inner ⟨other, otherFound, field, member, target, inlines, rfl⟩
  cases found.symm.trans otherFound
  exact (expands field member).acc_of_inlines inlines

/-! ## Where a reported cycle comes from -/

section

variable {inline : String → String → Except LinkError (List Field)} {origin : String}
  {found : List NameKey}

/-- A field that is not made of elements is refused for a cycle only by what it embeds. -/
theorem exists_embedded_of_headColumns {field : Field}
    (refused : linkage.headColumns inline field = .error (.cycle origin found)) :
    ∃ target, field.head.shape = .embedded target ∧
      inline field.name (target.getD "") = .error (.cycle origin found) := by
  unfold headColumns at refused
  split at refused
  · cases refused
  · rename_i target shape
    rw [bind_eq_error_iff] at refused
    rcases refused with inner | ⟨_, _, ⟨⟩⟩
    exact ⟨target, shape, inner⟩
  · cases refused
  · rw [bind_eq_error_iff] at refused
    rcases refused with lookup | ⟨_, _, ⟨⟩⟩
    cases refusesLookup_of_settleLookup lookup
  · unfold scalarColumn at refused
    split at refused
    · cases refused
    · split at refused <;> cases refused

/-- A field is refused for a cycle only by what it inlines. -/
theorem exists_inlines_of_fieldColumns {name : String} {field : Field}
    (refused : linkage.fieldColumns inline name field = .error (.cycle origin found)) :
    ∃ target, field.Inlines target ∧
      ∃ inner, inline inner target = .error (.cycle origin found) := by
  induction field generalizing name with
  | single head =>
      rcases exists_embedded_of_headColumns refused with ⟨target, shape, inner⟩
      exact ⟨_, .embedded shape, _, inner⟩
  | withElement head element inductionHypothesis =>
      unfold fieldColumns at refused
      split at refused
      · rename_i count shape
        rw [bind_eq_error_iff] at refused
        rcases refused with slots | ⟨_, _, ⟨⟩⟩
        rcases exists_of_mapM_eq_error slots with ⟨position, member, slot⟩
        rcases inductionHypothesis slot with ⟨target, inlines, further⟩
        have filled : 0 < count := Nat.zero_lt_of_lt (List.mem_range.mp member)
        exact ⟨target, .element shape rfl filled inlines, further⟩
      · rcases exists_embedded_of_headColumns refused with ⟨target, shape, inner⟩
        rw [Field.renamed, Field.head_mapHead] at shape
        exact ⟨_, .embedded shape, _, inner⟩

end

end Linkage

end Tabula
