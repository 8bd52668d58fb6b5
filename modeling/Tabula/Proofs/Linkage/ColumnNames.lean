import Mathlib.Data.List.Nodup
import Tabula.Proofs.Catalog.Documents
import Tabula.Proofs.Linkage.LookupKinds
import Tabula.Proofs.Linkage.PathKeys
import Tabula.Proofs.Linkage.Refusals

/-!
# Columns with different names

The name of a column is the path of its leaf, and the key of a path shows every name on it
and every position.  So two leaves get one name only where two fields of one schema look
alike on their paths.  Fields of a schema have names of different keys, but a name whose key
ends in a final sigma changes when the path goes on to another name.  Embedded fields are
the only ones that this can make alike.
-/

namespace Tabula

/-- Embedded fields that have different names keep them apart in front of other names. -/
def Schema.KeepsApart (schema : Schema) : Prop :=
  ∀ first ∈ schema.fields, ∀ second ∈ schema.fields,
    first.kind = .embedded → second.kind = .embedded →
      NameKey.within first.name = NameKey.within second.name →
        NameKey.of first.name = NameKey.of second.name

instance (schema : Schema) : Decidable schema.KeepsApart :=
  inferInstanceAs (Decidable (∀ first ∈ schema.fields, ∀ second ∈ schema.fields,
    first.kind = .embedded → second.kind = .embedded →
      NameKey.within first.name = NameKey.within second.name →
        NameKey.of first.name = NameKey.of second.name))

/-- Fields without capital sigmas in their names are kept apart. -/
theorem Schema.keepsApart_of_no_sigma {schema : Schema}
    (plain : ∀ field ∈ schema.fields, 'Σ' ∉ field.name.toList) : schema.KeepsApart := by
  intro first firstMember second secondMember _ _ same
  exact (within_eq_iff_of_no_sigma (plain first firstMember) (plain second secondMember)).mp same

namespace Linkage

/-! ## Leaves below a field -/

/-- The leaves have names on their ways, and no two of the ways look alike. -/
structure AreApart (leaves : List Leaf) : Prop where
  named : ∀ leaf ∈ leaves, AreNamed leaf.steps
  distinct : (leaves.map fun leaf => stepsKey leaf.steps).Nodup

/-- A view of a list repeats nothing where it tells apart what a view without repetition
does. -/
theorem nodup_map_of_reflects {α β γ : Type} {members : List α} {view : α → β} {other : α → γ}
    (distinct : (members.map view).Nodup)
    (reflects : ∀ first ∈ members, ∀ second ∈ members,
      other first = other second → view first = view second) :
    (members.map other).Nodup := by
  rw [List.Nodup, List.pairwise_map] at distinct ⊢
  apply distinct.imp_of_mem
  intro first second firstMember secondMember different same
  exact different (reflects first firstMember second secondMember same)

theorem areApart_here (field : Field) : AreApart [.here field] where
  named := List.forall_mem_singleton.mpr areNamed_nil
  distinct := List.nodup_singleton _

/-- The ways into different slots differ in the position. -/
theorem areApart_slots {leaves : List Leaf} {count : Nat}
    (apart : ∀ position < count, AreApart leaves) :
    AreApart ((List.range count).flatMap fun position => leaves.map (.inSlot position)) where
  named := by
    intro leaf member
    rcases List.mem_flatMap.mp member with ⟨position, bound, inside⟩
    rcases List.mem_map.mp inside with ⟨below, belowMember, rfl⟩
    intro name onTheWay
    rcases List.mem_cons.mp onTheWay with ⟨⟨⟩⟩ | further
    exact (apart position (List.mem_range.mp bound)).named below belowMember name further
  distinct := by
    rw [List.map_flatMap, List.nodup_flatMap]
    constructor
    · intro position bound
      rw [List.map_map]
      apply nodup_map_of_reflects (apart position (List.mem_range.mp bound)).distinct
      intro first _ second _ same
      exact (eq_of_stepsKey_slot_eq same).2
    · refine List.nodup_range.imp ?_
      intro position other different key inside inOther
      simp only [List.map_map, List.mem_map] at inside inOther
      rcases inside with ⟨first, _, rfl⟩
      rcases inOther with ⟨second, _, same⟩
      exact different (eq_of_stepsKey_slot_eq same).1.symm

section

variable {linkage : Linkage} {catalog : Catalog}

/-- Only an embedded field has leaves whose ways go on to another name. -/
theorem Expands.kind_of_enters {field : Field} {leaves : List Leaf}
    (expands : Expands linkage field leaves) {leaf : Leaf} (member : leaf ∈ leaves)
    (enters : entersSchema leaf.steps = true) : field.kind = .embedded := by
  cases expands with
  | scalar =>
      cases List.mem_singleton.mp member
      cases enters
  | lookup =>
      cases List.mem_singleton.mp member
      cases enters
  | bareList => cases member
  | list =>
      rcases List.mem_flatMap.mp member with ⟨position, _, inside⟩
      rcases List.mem_map.mp inside with ⟨below, _, rfl⟩
      cases enters
  | embedded shape => rw [Field.kind, shape]; rfl

/-- The paths that start at the fields of a schema differ, when those below each field do. -/
theorem nodup_pathKeys {schema : Schema}
    (named : ∀ field ∈ schema.fields, Text.isName field.name.toList = true)
    (apart : schema.KeepsApart) {leavesOf : Field → List Leaf}
    (expands : ∀ field ∈ schema.fields, Expands linkage field (leavesOf field))
    (below : ∀ field ∈ schema.fields, AreApart (leavesOf field)) :
    (schema.fields.flatMap fun field =>
      (leavesOf field).map fun leaf => pathKey field.name leaf.steps).Nodup := by
  rw [List.nodup_flatMap]
  constructor
  · intro field member
    apply nodup_map_of_reflects (below field member).distinct
    intro first _ second _ same
    exact (eq_of_pathKey_eq (named field member) (named field member) same).2
  · refine (List.pairwise_map.mp schema.distinct).imp_of_mem ?_
    intro left right leftMember rightMember different key inLeft inRight
    rcases List.mem_map.mp inLeft with ⟨first, firstMember, rfl⟩
    rcases List.mem_map.mp inRight with ⟨second, secondMember, same⟩
    obtain ⟨segments, ways⟩ :=
      eq_of_pathKey_eq (named right rightMember) (named left leftMember) same
    have firstNamed := (below left leftMember).named first firstMember
    have secondNamed := (below right rightMember).named second secondMember
    -- Ways of one key go on alike, so both names have the form that they have there.
    have alike := entersSchema_eq_of_stepsKey_eq ways
    rw [segmentKey_congr firstNamed secondNamed alike.symm] at segments
    apply different
    cases enters : entersSchema second.steps with
    | false => exact (of_eq_of_segmentKey_eq secondNamed enters segments).symm
    | true =>
        apply apart left leftMember right rightMember
        · exact (expands left leftMember).kind_of_enters firstMember (alike.symm.trans enters)
        · exact (expands right rightMember).kind_of_enters secondMember enters
        · exact (within_eq_of_segmentKey_eq secondNamed enters segments).symm

theorem areApart_children {schema : Schema} {nullable : Bool}
    (named : ∀ field ∈ schema.fields, Text.isName field.name.toList = true)
    (apart : schema.KeepsApart) {leavesOf : Field → List Leaf}
    (expands : ∀ field ∈ schema.fields, Expands linkage field (leavesOf field))
    (below : ∀ field ∈ schema.fields, AreApart (leavesOf field)) :
    AreApart (schema.fields.flatMap fun child =>
      (leavesOf child).map (.inChild child.name nullable)) where
  named := by
    intro leaf member
    rcases List.mem_flatMap.mp member with ⟨child, childMember, inside⟩
    rcases List.mem_map.mp inside with ⟨under, underMember, rfl⟩
    intro name onTheWay
    rcases List.mem_cons.mp onTheWay with ⟨⟨⟩⟩ | further
    · exact named child childMember
    · exact (below child childMember).named under underMember name further
  distinct := by
    have behindPoint := (nodup_pathKeys named apart expands below).map
      (List.cons_injective (a := '.'))
    rw [List.map_flatMap] at behindPoint ⊢
    simp only [List.map_map] at behindPoint ⊢
    exact behindPoint

/-- The leaves below a field of documents are apart. -/
theorem Expands.areApart (knows : linkage.Knows catalog) (grounded : catalog.IsGrounded)
    (named : ∀ schema ∈ catalog.schemas, ∀ field ∈ schema.fields,
      Text.isName field.name.toList = true)
    (apart : ∀ schema ∈ catalog.schemas, schema.KeepsApart) {field : Field}
    {leaves : List Leaf} (expands : Expands linkage field leaves)
    (grounds : catalog.GroundsField field) : AreApart leaves := by
  induction expands with
  | scalar => exact areApart_here _
  | lookup => exact areApart_here _
  | bareList => exact ⟨List.forall_mem_nil _, List.nodup_nil⟩
  | list shape elementFound slots inductionHypothesis =>
      apply areApart_slots
      intro position bound
      exact inductionHypothesis position bound (grounds.element elementFound)
  | embedded shape schemaFound children inductionHypothesis =>
      have member := knows.mem_schemas grounds shape schemaFound
      apply areApart_children (named _ member) (apart _ member) children
      intro child inside
      exact inductionHypothesis child inside (grounded.fields member child inside)

/-- No two leaves of a schema of documents have paths of one key. -/
theorem nodup_leafKeys (knows : linkage.Knows catalog) (grounded : catalog.IsGrounded)
    (named : ∀ schema ∈ catalog.schemas, ∀ field ∈ schema.fields,
      Text.isName field.name.toList = true)
    (apart : ∀ schema ∈ catalog.schemas, schema.KeepsApart) {schema : Schema}
    (member : schema ∈ catalog.schemas) {leaves : List (String × Leaf)}
    (expands : ExpandsAll linkage schema.fields leaves) :
    (leaves.map fun leaf => NameKey.of (pathName leaf.1 leaf.2.steps)).Nodup := by
  rcases expands with ⟨leavesOf, expands, rfl⟩
  have below : ∀ field ∈ schema.fields, AreApart (leavesOf field) := by
    intro field inside
    exact (expands field inside).areApart knows grounded named apart
      (grounded.fields member field inside)
  have stepsNamed : ∀ leaf ∈ schema.fields.flatMap fun field =>
      (leavesOf field).map (field.name, ·), AreNamed leaf.2.steps := by
    intro leaf among
    rcases List.mem_flatMap.mp among with ⟨field, inside, here⟩
    rcases List.mem_map.mp here with ⟨under, underMember, rfl⟩
    exact (below field inside).named under underMember
  have distinct : ((schema.fields.flatMap fun field =>
      (leavesOf field).map (field.name, ·)).map fun leaf =>
        pathKey leaf.1 leaf.2.steps).Nodup := by
    rw [List.map_flatMap]
    simp only [List.map_map]
    exact nodup_pathKeys (named schema member) (apart schema member) expands below
  apply nodup_map_of_reflects distinct
  intro first firstMember second secondMember same
  rw [of_pathName (stepsNamed first firstMember), of_pathName (stepsNamed second secondMember),
    NameKey.mk.injEq, String.ofList_inj] at same
  exact same

/-! ## Columns -/

/-- Columns are filed under the keys of their paths. -/
theorem map_key_columns {leaves : List (String × Leaf)} {columns : List Field}
    (each : List.Forall₂ (fun leaf column => IsColumn linkage leaf.1 leaf.2 column)
      leaves columns) :
    columns.map (NameKey.of ·.name) =
      leaves.map fun leaf => NameKey.of (pathName leaf.1 leaf.2.steps) := by
  induction each with
  | nil => rfl
  | cons isColumn _ inductionHypothesis =>
      obtain ⟨settled, _, head⟩ := isColumn
      rw [List.map_cons, List.map_cons, inductionHypothesis, Field.name, head]

/-- A field on its own is never refused for its name. -/
theorem RefusesHead.ne_duplicateField {field : Field} {refusal : LinkError}
    (refuses : linkage.RefusesHead field refusal) (schema name : String) :
    refusal ≠ .refusedSchema (.duplicateField schema name) := by
  rintro rfl
  cases refuses with
  | lookup _ refused => cases refusesLookup_of_settleLookup refused

/-- Where embedded fields keep names apart, no two leaves of a schema of documents have names
of one key, however deep they lie, and no schema is refused for two columns of one name. -/
theorem leaf_names_never_collide {tables : List Table} (documented : catalog.Documented)
    (linked : (ofCatalog catalog tables).result = .ok linkage)
    (apart : ∀ schema ∈ catalog.schemas, schema.KeepsApart) {schema : Schema}
    (member : schema ∈ catalog.schemas) :
    (∀ leaves, ExpandsAll linkage schema.fields leaves →
        (leaves.map fun leaf => NameKey.of (pathName leaf.1 leaf.2.steps)).Nodup) ∧
      ∀ name field,
        linkage.flatSchema schema.name ≠ .error (.refusedSchema (.duplicateField name field)) := by
  obtain ⟨sound, grounded⟩ := documented.grounded
  have knows := knows_of_ofCatalog sound.indexed grounded linked
  have named : ∀ schema ∈ catalog.schemas, ∀ field ∈ schema.fields,
      Text.isName field.name.toList = true := fun _ among => documented.isName among
  have distinct : ∀ leaves, ExpandsAll linkage schema.fields leaves →
      (leaves.map fun leaf => NameKey.of (pathName leaf.1 leaf.2.steps)).Nodup :=
    fun _ => nodup_leafKeys knows grounded named apart member
  refine ⟨distinct, ?_⟩
  intro name field refused
  rw [knows.flatSchema_eq sound.indexed member] at refused
  cases refusesFlattening_of_flatten refused with
  | below refuses =>
      obtain ⟨_, _, _, _, refuses⟩ := refuses
      exact refuses.ne_duplicateField name field rfl
  | duplicate _ expanded clash =>
      obtain ⟨leaves, expands, each⟩ := expanded
      rw [map_key_columns each] at clash
      exact clash (distinct leaves expands)

end

/-! ## Concrete documents -/

/-- A frame has a corner and a list of corners, under names that end in a sigma. -/
def frameDocument : String :=
  "[\x7b\"name\": \"Corner\", \"fields\": \x7b\"x\": \"int8\"\x7d\x7d,
    \x7b\"name\": \"Frame\", \"fields\":
      \x7b\"aΣ\": \"Corner\", \"aσ\": \"list<Corner, 2>\"\x7d\x7d]"

theorem frame_names_never_collide :
    ∃ catalog linkage flat, catalog.Documented ∧
      (ofCatalog catalog []).result = .ok linkage ∧
      (∀ schema ∈ catalog.schemas, schema.KeepsApart) ∧
      linkage.flatSchema "Frame" = .ok flat ∧
      flat.fields.map Field.name = ["aΣ.x", "aσ[0].x", "aσ[1].x"] ∧
      ∀ name field,
        linkage.flatSchema "Frame" ≠ .error (.refusedSchema (.duplicateField name field)) := by
  have computed : (do
      let catalog ← (Catalog.read { allowComments := false } frameDocument).result.toOption
      let linkage ← (ofCatalog catalog []).result.toOption
      let frame ← catalog.schemas[1]?
      let flat ← (linkage.flatSchema "Frame").toOption
      return (frame.name, flat.fields.map Field.name,
        decide (∀ schema ∈ catalog.schemas, schema.KeepsApart))) =
      some ("Frame", ["aΣ.x", "aσ[0].x", "aσ[1].x"], true) := by
    decide +kernel
  simp only [Option.bind_eq_bind, Option.bind_eq_some_iff, toOption_eq_some_iff, Option.pure_def,
    Option.some.injEq, Prod.mk.injEq, decide_eq_true_eq] at computed
  rcases computed with ⟨catalog, read, linkage, linked, frame, frameAt, flat, flattened, name,
    columns, apart⟩
  have documented := Catalog.Documented.read read
  have never :=
    (leaf_names_never_collide documented linked apart (List.mem_of_getElem? frameAt)).2
  rw [name] at never
  exact ⟨catalog, linkage, flat, documented, linked, apart, flattened, columns, never⟩

/-- A frame has two corners.  A capital sigma at the end of a name is lowered as one inside a
word, once a name follows it. -/
def cornerDocument : String :=
  "[\x7b\"name\": \"Corner\", \"fields\": \x7b\"x\": \"int8\"\x7d\x7d,
    \x7b\"name\": \"Frame\", \"fields\": \x7b\"aΣ\": \"Corner\", \"aσ\": \"Corner\"\x7d\x7d]"

/-- Leaves of different fields may get one name, which refuses their schema. -/
theorem corner_names_collide :
    ¬∀ options source catalog linkage, (Catalog.read options source).result = .ok catalog →
      (ofCatalog catalog []).result = .ok linkage → ∀ schema ∈ catalog.schemas, ∀ name field,
        linkage.flatSchema schema.name ≠ .error (.refusedSchema (.duplicateField name field)) := by
  intro never
  have computed : (do
      let catalog ← (Catalog.read { allowComments := false } cornerDocument).result.toOption
      let linkage ← (ofCatalog catalog []).result.toOption
      let frame ← catalog.schemas[1]?
      return match linkage.flatSchema frame.name with
        | .ok _ => none
        | .error refusal => some refusal) =
      some (some (.refusedSchema (.duplicateField "Frame" "aσ.x"))) := by
    decide +kernel
  simp only [Option.bind_eq_bind, Option.bind_eq_some_iff, toOption_eq_some_iff, Option.pure_def,
    Option.some.injEq] at computed
  rcases computed with ⟨catalog, read, linkage, linked, frame, frameAt, outcome⟩
  split at outcome
  · cases outcome
  · rename_i refused
    cases outcome
    exact never _ _ catalog linkage read linked frame (List.mem_of_getElem? frameAt) _ _ refused

end Linkage

end Tabula
