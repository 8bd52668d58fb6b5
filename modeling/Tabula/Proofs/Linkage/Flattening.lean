import Tabula.Proofs.Linkage.Expansion
import Tabula.Proofs.Linkage.KeyChain
import Tabula.Proofs.Schema.Lookup

/-!
# Columns of leaves

A schema that becomes flat gets exactly one column for each of its leaves, in their
order.  The column has the path of the leaf as its name and, for a lookup, the kind of
its key; an optional leaf makes it nullable and leaves it without a fallback; and all
else is taken from the leaf.
-/

namespace Tabula

/-- What stands before the root of a path stands before its text. -/
theorem append_pathName (start root : String) (steps : List PathStep) :
    start ++ pathName root steps = pathName (start ++ root) steps := by
  induction steps generalizing root with
  | nil => rfl
  | cons step steps inductionHypothesis =>
      rw [pathName, pathName, inductionHypothesis, String.append_assoc]

theorem Field.head_makeOptional (field : Field) :
    field.makeOptional.head = { field.head with nullable := true, fallback := none } := by
  cases field <;> rfl

namespace Linkage

/-- The head of a leaf once a lookup has taken the kinds at the ends of its chains. -/
inductive SettlesHead (linkage : Linkage) : FieldHead → FieldHead → Prop where
  | scalar {head : FieldHead} {kind : ScalarKind} {reference : Option Reference}
      (shape : head.shape = .scalar kind reference) : SettlesHead linkage head head
  | lookup {head : FieldHead} {reference : Reference} {keyKind pickedKind : ScalarKind}
      {fallback : Option Value} (shape : head.shape = .lookup (some reference))
      (key : LeadsTo linkage reference.table reference.keyField keyKind)
      (picked : LeadsTo linkage reference.table reference.pickedField pickedKind)
      (converts : ConvertsFallback keyKind head.fallback fallback) :
      SettlesHead linkage head
        { head with
          shape :=
            .scalar keyKind (some { reference with pickedKind := some (.scalar pickedKind) })
          fallback }

/-- The field is the column of a leaf below a field of the given name. -/
def IsColumn (linkage : Linkage) (root : String) (leaf : Leaf) (column : Field) : Prop :=
  ∃ settled, SettlesHead linkage leaf.field.head settled ∧
    column.head =
      { settled with
        name := pathName root leaf.steps
        nullable := settled.nullable || leaf.optional
        fallback := if leaf.optional then none else settled.fallback }

/-! ## Columns on their way up -/

theorem elementName_eq (name : String) (position : Nat) :
    elementName name position = name ++ (PathStep.slot position).text := by
  rw [PathStep.text_slot, ← String.append_assoc, ← String.append_assoc]
  rfl

theorem head_embeddedColumn (name : String) (nullable : Bool) (column : Field) :
    (embeddedColumn name nullable column).head =
      { column.head with
        name := name ++ "." ++ column.name
        nullable := column.head.nullable || nullable
        fallback := if nullable then none else column.head.fallback } := by
  cases nullable with
  | false =>
      rw [Bool.or_false]
      exact Field.head_mapHead _ _
  | true =>
      rw [Bool.or_true, embeddedColumn, if_pos rfl, Field.head_makeOptional, Field.renamed,
        Field.head_mapHead]
      rfl

/-- A leaf of an element is a leaf of the list, and below a list every column is
optional. -/
theorem IsColumn.inSlot {linkage : Linkage} {root : String} {position : Nat} {leaf : Leaf}
    {column : Field} (isColumn : IsColumn linkage (elementName root position) leaf column) :
    IsColumn linkage root (leaf.inSlot position) column.makeOptional := by
  rcases isColumn with ⟨settled, settles, same⟩
  refine ⟨settled, settles, ?_⟩
  rw [Field.head_makeOptional, same, elementName_eq]
  simp [Leaf.inSlot, pathName]

/-- A leaf of an embedded schema is a leaf of the field that embeds it. -/
theorem IsColumn.inChild {linkage : Linkage} {root child : String} {nullable : Bool}
    {leaf : Leaf} {column : Field} (isColumn : IsColumn linkage child leaf column) :
    IsColumn linkage root (leaf.inChild child nullable)
      (embeddedColumn root nullable column) := by
  rcases isColumn with ⟨settled, settles, same⟩
  refine ⟨settled, settles, ?_⟩
  have path : root ++ "." ++ column.name =
      pathName root (leaf.inChild child nullable).steps := by
    rw [Field.name, same, append_pathName, String.append_assoc]
    rfl
  rw [head_embeddedColumn, path, same]
  cases nullable <;> simp [Leaf.inChild]

/-! ## Columns of one field -/

/-- The columns are those of the leaves below a field of the given name. -/
def AreColumns (linkage : Linkage) (root : String) (leaves : List Leaf)
    (columns : List Field) : Prop :=
  List.Forall₂ (IsColumn linkage root) leaves columns

/-- The columns are those of the leaves of a list of fields. -/
def HaveColumns (linkage : Linkage) (fields columns : List Field) : Prop :=
  ∃ leaves, ExpandsAll linkage fields leaves ∧
    List.Forall₂ (fun leaf column => IsColumn linkage leaf.1 leaf.2 column) leaves columns

theorem isColumn_here {linkage : Linkage} {name : String} {field column : Field}
    (settles : SettlesHead linkage field.head { column.head with name := field.name })
    (named : column.name = name) : IsColumn linkage name (.here field) column := by
  refine ⟨_, settles, ?_⟩
  subst named
  simp [Leaf.here, pathName, Field.name]

/-- The columns of a list are those of its slots, one after another. -/
theorem areColumns_slots {linkage : Linkage} {name : String} {leaves : List Leaf}
    {positions : List Nat} {groups : List (List Field)}
    (each : List.Forall₂
      (fun position => AreColumns linkage (elementName name position) leaves)
      positions groups) :
    AreColumns linkage name
      (positions.flatMap fun position => leaves.map (.inSlot position))
      (groups.flatten.map Field.makeOptional) := by
  induction each with
  | nil => exact .nil
  | @cons position group positions groups here _ inductionHypothesis =>
      rw [List.flatMap_cons, List.flatten_cons, List.map_append]
      refine List.rel_append ?_ inductionHypothesis
      rw [List.forall₂_map_left_iff, List.forall₂_map_right_iff]
      exact here.imp fun _ _ isColumn => isColumn.inSlot

/-- The columns of an embedded field are those of the fields of its target. -/
theorem areColumns_children {linkage : Linkage} {name : String} {nullable : Bool}
    {leavesOf : Field → List Leaf} {fields columns : List Field}
    (each : List.Forall₂ (fun leaf column => IsColumn linkage leaf.1 leaf.2 column)
      (fields.flatMap fun child => (leavesOf child).map (child.name, ·)) columns) :
    AreColumns linkage name
      (fields.flatMap fun child => (leavesOf child).map (.inChild child.name nullable))
      (columns.map (embeddedColumn name nullable)) := by
  have seen : (fields.flatMap fun child =>
        (leavesOf child).map (.inChild child.name nullable)) =
      (fields.flatMap fun child => (leavesOf child).map (child.name, ·)).map
        fun leaf => leaf.2.inChild leaf.1 nullable := by
    simp only [List.map_flatMap, List.map_map, Function.comp_def]
  rw [seen, AreColumns, List.forall₂_map_left_iff, List.forall₂_map_right_iff]
  exact each.imp fun _ _ isColumn => isColumn.inChild

theorem eq_singleton_of_scalarColumn {field : Field} {reference : Option Reference}
    {columns : List Field} (accepted : scalarColumn field reference = .ok columns) :
    columns = [field] := by
  unfold scalarColumn at accepted
  split at accepted
  · cases accepted
    rfl
  · split at accepted
    · cases accepted
      rfl
    · cases accepted
      rfl
    · cases accepted

/-- Some list is the only one that a field may expand to. -/
theorem exists_only_leaves (linkage : Linkage) (field : Field) :
    ∃ leaves, ∀ others, Expands linkage field others → others = leaves := by
  by_cases expands : ∃ leaves, Expands linkage field leaves
  · rcases expands with ⟨leaves, expands⟩
    exact ⟨leaves, fun _ other => other.unique expands⟩
  · exact ⟨[], fun others other => absurd ⟨others, other⟩ expands⟩

section

variable {linkage : Linkage} {inline : String → String → Except LinkError (List Field)}

/-- A field that is not made of elements has the columns of its leaves, if the schemas
that are inlined have. -/
theorem areColumns_of_headColumns
    (inlines : ∀ name target columns, inline name target = .ok columns →
      ∃ schema, linkage.schema? target = some schema ∧
        HaveColumns linkage schema.fields columns)
    {name : String} {field : Field} {columns : List Field}
    (bare : ∀ count, field.head.shape = .list count → field.element? = none)
    (accepted : linkage.headColumns inline (field.renamed name) = .ok columns) :
    ∃ leaves, Expands linkage field leaves ∧ AreColumns linkage name leaves columns := by
  have head : (field.renamed name).head = { field.head with name } := Field.head_mapHead _ _
  unfold headColumns at accepted
  rw [Field.name, head] at accepted
  cases shape : field.head.shape with
  | scalar kind reference =>
      simp only [shape] at accepted
      cases eq_singleton_of_scalarColumn accepted
      refine ⟨_, .scalar shape, .cons (isColumn_here ?_ (Field.name_renamed _ _)) .nil⟩
      rw [head]
      exact .scalar shape
  | list count =>
      simp only [shape, Except.ok.injEq] at accepted
      subst accepted
      exact ⟨[], .bareList shape (bare count shape), .nil⟩
  | embedded target =>
      simp only [shape, bind_eq_ok_iff, pure_eq_ok_iff] at accepted
      rcases accepted with ⟨inner, inlined, rfl⟩
      obtain ⟨schema, schemaFound, leaves, ⟨leavesOf, expands, rfl⟩, each⟩ :=
        inlines _ _ _ inlined
      exact ⟨_, .embedded shape schemaFound expands, areColumns_children each⟩
  | lookup reference =>
      simp only [shape, bind_eq_ok_iff, pure_eq_ok_iff] at accepted
      rcases accepted with ⟨settled, settling, rfl⟩
      cases reference with
      | none => cases settling
      | some reference =>
          obtain ⟨keyKind, pickedKind, fallback, key, picked, converts, same⟩ :=
            head_settleLookup settling
          rw [head] at converts same
          refine ⟨_, .lookup shape, .cons (isColumn_here ?_ ?_) .nil⟩
          · rw [same]
            exact .lookup shape key picked converts
          · rw [Field.name, same]
  | unresolved =>
      simp only [shape] at accepted
      cases accepted

/-- A field has the columns of its leaves, if the schemas that are inlined have. -/
theorem areColumns_of_fieldColumns
    (inlines : ∀ name target columns, inline name target = .ok columns →
      ∃ schema, linkage.schema? target = some schema ∧
        HaveColumns linkage schema.fields columns)
    {name : String} {field : Field} {columns : List Field}
    (accepted : linkage.fieldColumns inline name field = .ok columns) :
    ∃ leaves, Expands linkage field leaves ∧ AreColumns linkage name leaves columns := by
  induction field generalizing name columns with
  | single head =>
      exact areColumns_of_headColumns inlines (fun _ _ => rfl) accepted
  | withElement head element inductionHypothesis =>
      unfold fieldColumns at accepted
      split at accepted
      · rename_i count shape
        rw [bind_eq_ok_iff] at accepted
        rcases accepted with ⟨groups, mapped, same⟩
        rw [pure_eq_ok_iff] at same
        subst same
        rw [mapM_eq_ok_iff] at mapped
        obtain ⟨leaves, only⟩ := exists_only_leaves linkage element
        have each : List.Forall₂ (fun position group => Expands linkage element leaves ∧
            AreColumns linkage (elementName name position) leaves group)
            (List.range count) groups := by
          refine mapped.imp fun position group accepted => ?_
          obtain ⟨others, expands, columns⟩ := inductionHypothesis accepted
          cases only others expands
          exact ⟨expands, columns⟩
        rw [List.forall₂_and_left] at each
        rcases each with ⟨expands, slots⟩
        refine ⟨_, .list shape rfl ?_, areColumns_slots slots⟩
        intro position bound
        exact expands position (List.mem_range.mpr bound)
      · rename_i notList
        refine areColumns_of_headColumns inlines ?_ accepted
        intro count shape
        exact absurd shape (notList count)

end

/-! ## Columns of a schema -/

/-- A list of fields whose columns are found has those of its leaves.  The induction is
on the schemas that may still be entered, of which every embedded field takes one. -/
theorem haveColumns_of_columns {linkage : Linkage} {path closed : List NameKey}
    {fields columns : List Field} (accepted : linkage.columns path closed fields = .ok columns) :
    HaveColumns linkage fields columns := by
  induction size : closed.length using Nat.strongRecOn generalizing path closed fields columns with
  | ind size inductionHypothesis =>
      unfold Linkage.columns at accepted
      simp only [bind_eq_ok_iff, pure_eq_ok_iff, mapM_eq_ok_iff] at accepted
      rcases accepted with ⟨groups, mapped, rfl⟩
      obtain ⟨leavesOf, only⟩ := Classical.skolem.1 (exists_only_leaves linkage)
      have each : List.Forall₂ (fun field group => Expands linkage field (leavesOf field) ∧
          AreColumns linkage field.name (leavesOf field) group) fields groups := by
        refine mapped.imp fun field group accepted => ?_
        have found := areColumns_of_fieldColumns ?_ accepted
        · rcases found with ⟨leaves, expands, columns⟩
          cases only field leaves expands
          exact ⟨expands, columns⟩
        · intro name target columns inlined
          split at inlined
          · cases inlined
          · rename_i schema schemaFound
            split at inlined
            · rename_i fresh
              have fewer := length_without_lt fresh
              rw [size] at fewer
              exact ⟨schema, schemaFound, inductionHypothesis _ fewer inlined rfl⟩
            · cases inlined
      rw [List.forall₂_and_left] at each
      rcases each with ⟨expands, columns⟩
      refine ⟨_, ⟨leavesOf, expands, rfl⟩, ?_⟩
      rw [List.flatMap_def]
      apply List.rel_flatten
      rw [List.forall₂_map_left_iff]
      refine columns.imp fun field group columns => ?_
      rw [List.forall₂_map_left_iff]
      exact columns

/-- The fields of a flat schema are leaves and their own columns. -/
theorem haveColumns_of_isFlat {linkage : Linkage} {fields : List Field}
    (flat : fields.all Field.isFlat = true) : HaveColumns linkage fields fields := by
  have scalar : ∀ field ∈ fields, ∃ kind reference,
      field.head.shape = .scalar kind reference := by
    intro field member
    obtain ⟨kind, reference, shape, _⟩ :=
      Field.exists_scalar_of_isFlat (List.all_eq_true.mp flat field member)
    exact ⟨kind, reference, shape⟩
  refine ⟨_, ⟨fun field => [.here field], ?_, rfl⟩, ?_⟩
  · intro field member
    obtain ⟨kind, reference, shape⟩ := scalar field member
    exact .scalar shape
  · simp only [List.map_cons, List.map_nil]
    rw [← List.map_eq_flatMap, List.forall₂_map_left_iff, List.forall₂_same]
    intro field member
    obtain ⟨kind, reference, shape⟩ := scalar field member
    exact isColumn_here (.scalar shape) rfl

/-! ## Flat schemas -/

/-- A schema that becomes flat keeps all but its fields, and has one column for each of
its leaves, in their order. -/
theorem flatten_columns_are_leaves {linkage : Linkage} {schema : Schema} {flat : FlatSchema}
    (flattened : linkage.flatten schema = .ok flat) :
    flat.schema.name = schema.name ∧ flat.schema.description = schema.description ∧
      flat.schema.embed = schema.embed ∧ flat.schema.partials = schema.partials ∧
      ∃ leaves, ExpandsAll linkage schema.fields leaves ∧
        (∀ others, ExpandsAll linkage schema.fields others → others = leaves) ∧
        List.Forall₂ (fun leaf column => IsColumn linkage leaf.1 leaf.2 column)
          leaves flat.fields := by
  have columns : flat.schema.emptyLike = schema.emptyLike ∧
      HaveColumns linkage schema.fields flat.fields := by
    unfold flatten at flattened
    split at flattened
    · rename_i already
      rw [mapError_eq_ok_iff] at flattened
      rw [FlatSchema.fields, FlatSchema.schema_of_ofSchema flattened]
      exact ⟨rfl, haveColumns_of_isFlat already⟩
    · simp only [bind_eq_ok_iff, mapError_eq_ok_iff] at flattened
      rcases flattened with ⟨columns, expanded, grown, added, accepted⟩
      obtain ⟨same, fields⟩ := Schema.addFields_eq_ok added
      rw [FlatSchema.fields, FlatSchema.schema_of_ofSchema accepted, fields]
      exact ⟨same, haveColumns_of_columns expanded⟩
  rcases columns with ⟨same, leaves, expands, each⟩
  have names := congrArg Schema.name same
  have descriptions := congrArg Schema.description same
  have embeds := congrArg Schema.embed same
  have partials := congrArg Schema.partials same
  exact ⟨names, descriptions, embeds, partials, leaves, expands,
    fun _ other => other.unique expands, each⟩

/-! ## A concrete schema -/

/-- A place with a city and a lookup of its zone. -/
def placeSchema : Schema where
  name := "Place"
  fields :=
    [.single
      { name := "city", typeText := "string", shape := .scalar .text none
        fallback := some (.text "Oslo") },
    .single
      { name := "zone", typeText := "Zone.id.$name"
        shape := .lookup (some { table := "Zone", keyField := "id", pickedField := "name" })
        fallback := some (.text "7") }]
  distinct := by decide +kernel

/-- Zones by number. -/
def zoneSchema : Schema where
  name := "Zone"
  fields := [.ofKind "id" (.scalar (.integer .bits16)), .ofKind "name" (.scalar .text)]
  distinct := by decide +kernel

/-- A trip from home over two stops, perhaps to a hotel. -/
def tripSchema : Schema where
  name := "Trip"
  fields :=
    [.embedded "home" "Place", .list "stops" (.embedded "" "place") 2,
    .single
      { name := "hotel", typeText := "Place", nullable := true
        shape := .embedded (some "Place") }]
  distinct := by decide +kernel

/-- The three schemas, linked without tables. -/
def tripLinkage : Linkage :=
  { empty with
    schemas :=
      ((Registry.empty.insert (.of "Trip") tripSchema).insert (.of "Place")
        placeSchema).insert (.of "Zone") zoneSchema }

theorem tripSchema_columns_are_leaves :
    ∃ flat, tripLinkage.flatten tripSchema = .ok flat ∧
      flat.fields.map (fun column => (column.name, column.kind, column.head.nullable)) =
        [("home.city", .scalar .text, false),
          ("home.zone", .scalar (.integer .bits16), false),
          ("stops[0].city", .scalar .text, true),
          ("stops[0].zone", .scalar (.integer .bits16), true),
          ("stops[1].city", .scalar .text, true),
          ("stops[1].zone", .scalar (.integer .bits16), true),
          ("hotel.city", .scalar .text, true),
          ("hotel.zone", .scalar (.integer .bits16), true)] ∧
      ∃ leaves, ExpandsAll tripLinkage tripSchema.fields leaves ∧
        List.Forall₂ (fun leaf column => IsColumn tripLinkage leaf.1 leaf.2 column)
          leaves flat.fields := by
  have columns : (tripLinkage.flatten tripSchema).toOption.map (fun flat =>
      flat.fields.map fun column => (column.name, column.kind, column.head.nullable)) =
        some
          [("home.city", .scalar .text, false),
            ("home.zone", .scalar (.integer .bits16), false),
            ("stops[0].city", .scalar .text, true),
            ("stops[0].zone", .scalar (.integer .bits16), true),
            ("stops[1].city", .scalar .text, true),
            ("stops[1].zone", .scalar (.integer .bits16), true),
            ("hotel.city", .scalar .text, true),
            ("hotel.zone", .scalar (.integer .bits16), true)] := by
    decide +kernel
  cases flattened : tripLinkage.flatten tripSchema with
  | error refusal =>
      rw [flattened] at columns
      cases columns
  | ok flat =>
      rw [flattened] at columns
      obtain ⟨_, _, _, _, leaves, expands, _, each⟩ := flatten_columns_are_leaves flattened
      exact ⟨flat, rfl, Option.some.inj columns, leaves, expands, each⟩

end Linkage

end Tabula
