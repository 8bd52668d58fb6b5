import Mathlib.Data.List.Chain
import Tabula.Proofs.Linkage.Embedding
import Tabula.Proofs.Linkage.Merging

/-!
# Flattening and cycles of embeddings

Embedding is followed as long as it leads to schemas that are not on the way already.
Nothing else bounds the walk, and nothing else is needed: a way never visits a schema
twice, so it is never longer than there are schemas.  A schema that embeds its way into a
cycle is refused, and the reported path shows the cycle.
-/

namespace Tabula

namespace Linkage

variable {linkage : Linkage}

/-! ## What is on the way and what is left -/

/-- Each registered schema is either on the path or still to be entered. -/
def Divides (linkage : Linkage) (path closed : List NameKey) : Prop :=
  ∀ key, linkage.schemas.contains key = true → (key ∈ closed ↔ key ∉ path)

theorem divides_root (linkage : Linkage) (root : NameKey) :
    linkage.Divides [root] (without linkage.schemas.keys root) := by
  intro key known
  rw [mem_without, Registry.mem_keys_iff, List.mem_singleton]
  exact and_iff_right known

/-- Entering a schema moves it onto the path. -/
theorem Divides.enter {path closed : List NameKey} (divides : linkage.Divides path closed)
    (key : NameKey) : linkage.Divides (path ++ [key]) (without closed key) := by
  intro other known
  rw [mem_without, divides other known, List.mem_append, List.mem_singleton, not_or]

/-! ## How deep the walk goes -/

/-- The columns of a list of fields, where embedding is followed unless it leads back to the
path.  A walk that enters schemas too deeply is given up with the last resort. -/
def columnsWithin (linkage : Linkage) (lastResort : Except LinkError (List Field)) :
    Nat → List NameKey → List Field → Except LinkError (List Field)
  | 0, _, _ => lastResort
  | depth + 1, path, fields => do
    let inline (name target : String) : Except LinkError (List Field) :=
      match linkage.schema? target with
      | none => .error (.schemaNotFound target name)
      | some schema =>
        let key := NameKey.of schema.name
        if key ∈ path then .error (.cycle schema.name (path ++ [key]))
        else linkage.columnsWithin lastResort depth (path ++ [key]) schema.fields
    let columns ← fields.mapM fun field => linkage.fieldColumns inline field.name field
    return columns.flatten

/-- The flat form of the schema of a name, from a walk of bounded depth. -/
def flatSchemaWithin (linkage : Linkage) (lastResort : Except LinkError (List Field))
    (depth : Nat) (name : String) : Except LinkError FlatSchema :=
  match linkage.schema? name with
  | none => .error (.unknownSchema name)
  | some schema =>
    if schema.isFlat then (FlatSchema.ofSchema schema).mapError .refusedSchema
    else do
      let columns ←
        linkage.columnsWithin lastResort depth [.of schema.name] schema.fields
      let flat ← (schema.emptyLike.addFields columns).mapError .refusedSchema
      (FlatSchema.ofSchema flat).mapError .refusedSchema

/-- The registered schemas are filed under the keys of their names. -/
def Named (linkage : Linkage) : Prop :=
  ∀ key schema, linkage.schemas.find? key = some schema → NameKey.of schema.name = key

theorem Named.contains (named : linkage.Named) {name : String} {schema : Schema}
    (found : linkage.schema? name = some schema) :
    linkage.schemas.contains (.of schema.name) = true := by
  rw [named _ _ found, Registry.contains]
  exact Option.isSome_iff_exists.mpr ⟨schema, found⟩

/-- A walk that may enter more schemas than are left never comes to its last resort. -/
theorem columnsWithin_eq_columns (named : linkage.Named)
    (lastResort : Except LinkError (List Field)) {depth : Nat} {path closed : List NameKey}
    (divides : linkage.Divides path closed) (enough : closed.length < depth)
    (fields : List Field) :
    linkage.columnsWithin lastResort depth path fields =
      linkage.columns path closed fields := by
  induction depth generalizing path closed fields with
  | zero => exact absurd enough (Nat.not_lt_zero _)
  | succ depth inductionHypothesis =>
      unfold columnsWithin Linkage.columns
      -- Only what is inlined differs, and that is told apart by where the target stands.
      refine congrArg (fun inline : String → String → Except LinkError (List Field) => do
        let columns ← fields.mapM fun field : Field =>
          linkage.fieldColumns inline field.name field
        return columns.flatten) ?_
      funext name target
      cases found : linkage.schema? target with
      | none => rfl
      | some schema =>
          have known := named.contains found
          by_cases left : NameKey.of schema.name ∈ closed
          · have fewer := length_without_lt left
            simp only [left, (divides _ known).mp left, if_false, dif_pos]
            exact inductionHypothesis (divides.enter _) (by omega) _
          · have onPath : NameKey.of schema.name ∈ path := by
              by_contra off
              exact left ((divides _ known).mpr off)
            simp only [left, onPath, if_true, dif_neg, not_false_eq_true]

/-- A walk may enter each schema once, and needs no more. -/
theorem flatSchemaWithin_eq_flatSchema (named : linkage.Named)
    (lastResort : Except LinkError (List Field)) (name : String) :
    linkage.flatSchemaWithin lastResort linkage.schemas.size name =
      linkage.flatSchema name := by
  unfold flatSchemaWithin flatSchema
  cases found : linkage.schema? name with
  | none => rfl
  | some schema =>
      have size : linkage.schemas.keys.length = linkage.schemas.size := List.length_map _
      have fewer := length_without_lt (Registry.mem_keys_iff.mpr (named.contains found))
      rw [size] at fewer
      simp only [flatten]
      rw [columnsWithin_eq_columns named lastResort (divides_root linkage _) fewer]

/-! ## The path to a cycle -/

/-- The path goes from one schema to another, and each schema on it embeds the next. -/
structure Leads (linkage : Linkage) (start : NameKey) (path : List NameKey)
    (last : NameKey) : Prop where
  starts : path.head? = some start
  ends : path.getLast? = some last
  embeds : path.IsChain linkage.Embeds

theorem leads_root (linkage : Linkage) (root : NameKey) : linkage.Leads root [root] root :=
  ⟨rfl, rfl, .singleton _⟩

theorem Leads.enter {start last next : NameKey} {path : List NameKey}
    (leads : linkage.Leads start path last) (embeds : linkage.Embeds last next) :
    linkage.Leads start (path ++ [next]) next := by
  refine ⟨?_, List.getLast?_concat, ?_⟩
  · rw [List.head?_append, leads.starts]
    rfl
  · rw [List.isChain_append]
    refine ⟨leads.embeds, .singleton _, ?_⟩
    rintro _ isLast _ ⟨⟩
    rw [leads.ends] at isLast
    cases isLast
    exact embeds

/-- The path walks along embeddings and ends where it has been before. -/
def ShowsCycle (linkage : Linkage) (start : NameKey) (path : List NameKey) : Prop :=
  ∃ last, linkage.Leads start path last ∧ last ∈ path.dropLast

/-- A reported cycle extends the way on which it was found.  The induction is on the
schemas that may still be entered. -/
theorem showsCycle_of_columns (named : linkage.Named) {start last : NameKey}
    {path closed : List NameKey} {fields : List Field} (leads : linkage.Leads start path last)
    (divides : linkage.Divides path closed)
    (inlined : ∀ field ∈ fields, ∀ target, field.Inlines target →
      linkage.Embeds last (.of target))
    {origin : String} {found : List NameKey}
    (refused : linkage.columns path closed fields = .error (.cycle origin found)) :
    linkage.ShowsCycle start found := by
  induction size : closed.length using Nat.strongRecOn
    generalizing last path closed fields with
  | ind size inductionHypothesis =>
      unfold Linkage.columns at refused
      rw [bind_eq_error_iff] at refused
      rcases refused with refused | ⟨_, _, ⟨⟩⟩
      rcases exists_of_mapM_eq_error refused with ⟨field, member, fieldRefused⟩
      rcases exists_inlines_of_fieldColumns fieldRefused with ⟨target, inlines, _, inner⟩
      have embeds := inlined field member target inlines
      split at inner
      · cases inner
      · rename_i schema schemaFound
        have key : NameKey.of schema.name = .of target := named _ _ schemaFound
        rw [← key] at embeds
        have way := leads.enter embeds
        by_cases left : NameKey.of schema.name ∈ closed
        · simp only [left, dif_pos] at inner
          have fewer := length_without_lt left
          rw [size] at fewer
          refine inductionHypothesis _ fewer way (divides.enter _) ?_ inner rfl
          intro child childMember childTarget childInlines
          refine ⟨schema, ?_, child, childMember, childTarget, childInlines, rfl⟩
          rw [key]
          exact schemaFound
        · simp only [left, dif_neg, not_false_eq_true] at inner
          cases inner
          refine ⟨_, way, ?_⟩
          rw [List.dropLast_concat]
          by_contra off
          exact left ((divides _ (named.contains schemaFound)).mpr off)

theorem showsCycle_of_flatten (named : linkage.Named) {key : NameKey} {schema : Schema}
    (found : linkage.schemas.find? key = some schema) {origin : String}
    {path : List NameKey} (refused : linkage.flatten schema = .error (.cycle origin path)) :
    linkage.ShowsCycle key path := by
  unfold flatten at refused
  split at refused
  · rw [mapError_eq_error_iff] at refused
    rcases refused with ⟨_, _, ⟨⟩⟩
  · simp only [bind_eq_error_iff, mapError_eq_error_iff] at refused
    rcases refused with walk | ⟨_, _, ⟨_, _, ⟨⟩⟩ | ⟨_, _, _, _, ⟨⟩⟩⟩
    obtain rfl := named key schema found
    refine showsCycle_of_columns named (leads_root _ _) (divides_root _ _) ?_ walk
    intro field member target inlines
    exact ⟨schema, found, field, member, target, inlines, rfl⟩

/-! ## Flattening -/

/-- Flattening ends, whatever the schemas embed: the walk that is bounded by the number of
schemas never comes to its bound.  A schema that becomes flat reaches no cycle of
embeddings, one that reaches a cycle is refused, and a reported path shows a cycle. -/
theorem flatSchema_ends_and_shows_cycles {schemas : List Schema} {tables : List Table}
    (linked : (link schemas tables).result = .ok linkage) (name : String) :
    (∀ lastResort, linkage.flatSchemaWithin lastResort linkage.schemas.size name =
      linkage.flatSchema name) ∧
    (∀ flat, linkage.flatSchema name = .ok flat → ¬linkage.ReachesCycle (.of name)) ∧
    (linkage.ReachesCycle (.of name) → ∃ refusal, linkage.flatSchema name = .error refusal) ∧
    ∀ origin path, linkage.flatSchema name = .error (.cycle origin path) →
      path.head? = some (.of name) ∧ path.IsChain linkage.Embeds ∧
        ∃ last, path.getLast? = some last ∧ last ∈ path.dropLast := by
  have named : linkage.Named := (registered_of_link linked).schemaNamed
  have acyclic : ∀ flat, linkage.flatSchema name = .ok flat →
      ¬linkage.ReachesCycle (.of name) := by
    intro flat flattened
    unfold flatSchema at flattened
    split at flattened
    · cases flattened
    · rename_i schema found
      exact not_reachesCycle_of_flatten found flattened
  refine ⟨fun _ => flatSchemaWithin_eq_flatSchema named _ name, acyclic, ?_, ?_⟩
  · intro cycle
    cases outcome : linkage.flatSchema name with
    | error refusal => exact ⟨refusal, rfl⟩
    | ok flat => exact absurd cycle (acyclic flat outcome)
  · intro origin path refused
    unfold flatSchema at refused
    split at refused
    · cases refused
    · rename_i schema found
      rcases showsCycle_of_flatten named found refused with ⟨last, leads, before⟩
      exact ⟨leads.starts, leads.embeds, last, leads.ends, before⟩

/-! ## A concrete cycle -/

/-- A gate with two hinges of one kind, and with a chain whose links are made of rings that
are made of links. -/
def gateSchemas : List Schema :=
  [{ name := "Gate"
     fields := [.embedded "left" "Hinge", .embedded "right" "Hinge", .embedded "chain" "Link"]
     distinct := by decide +kernel },
    { name := "Hinge"
      fields := [.ofKind "size" (.scalar (.integer .bits32))] },
    { name := "Link"
      fields := [.embedded "ring" "Ring"] },
    { name := "Ring"
      fields := [.list "links" (.list "row" (.embedded "link" "LINK") 1) 2] }]

theorem gateSchemas_show_cycle :
    ∃ linkage, (link gateSchemas []).result = .ok linkage ∧
      linkage.flatSchema "gate" =
        .error (.cycle "Link" [.of "gate", .of "link", .of "ring", .of "link"]) ∧
      [.of "gate", .of "link", .of "ring", .of "link"].IsChain linkage.Embeds := by
  have computed : (do
      let linkage ← (link gateSchemas []).result
      return match linkage.flatSchema "gate" with
        | .ok _ => none
        | .error refusal => some refusal) =
      .ok (some (.cycle "Link" [.of "gate", .of "link", .of "ring", .of "link"])) := by
    decide +kernel
  simp only [bind_eq_ok_iff, pure_eq_ok_iff] at computed
  rcases computed with ⟨linkage, linked, outcome⟩
  cases refused : linkage.flatSchema "gate" with
  | ok flat =>
      rw [refused] at outcome
      cases outcome
  | error refusal =>
      rw [refused, Option.some.injEq] at outcome
      subst outcome
      obtain ⟨_, embeds, _⟩ :=
        (flatSchema_ends_and_shows_cycles linked "gate").2.2.2 _ _ refused
      exact ⟨linkage, linked, refused, embeds⟩

end Linkage

end Tabula
