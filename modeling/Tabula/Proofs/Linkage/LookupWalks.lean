import Mathlib.Data.List.Nodup
import Tabula.Linkage.Assembly
import Tabula.Proofs.Linkage.KeyChain
import Tabula.Proofs.Schema.Lookup
import Tabula.Proofs.Text.Lowercase

/-!
# Walks along lookups

From a lookup a walk goes on to the key field that the lookup refers to, and from there in
the same way until it comes to a field that is no lookup.  The walk remembers the fields that
it has passed by their texts, in which a point separates the name of the table from that of
the field.  A walk that comes to a field again comes to its text again, so every walk ends.
But names may hold points, and two fields may have one text: a walk that passes both is taken
for a circle although it is open.
-/

namespace Tabula

namespace Linkage

variable {linkage : Linkage}

/-! ## Walks -/

/-- A field of a table, by the keys of the two names. -/
def place (table field : String) : NameKey × NameKey :=
  (.of table, .of field)

/-- The text by which a walk remembers a field. -/
def placeText (passed : NameKey × NameKey) : String :=
  stepText passed.1 passed.2

/-- The field that a walk comes to. -/
def fieldAt? (linkage : Linkage) (table field : String) : Option Field :=
  (linkage.rowSchema? table).bind fun schema => schema.field? field

/-- A walk from a field of a table to another one, with the lookups that it passes. -/
inductive Walks (linkage : Linkage) :
    String → String → List (NameKey × NameKey) → String → String → Prop where
  | here (table field : String) : Walks linkage table field [] table field
  | next {table field last lastField : String} {passed : List (NameKey × NameKey)}
      {target : Field} {reference : Reference} (found : linkage.fieldAt? table field = some target)
      (shape : target.head.shape = .lookup (some reference))
      (further : Walks linkage reference.table reference.keyField passed last lastField) :
      Walks linkage table field (place table field :: passed) last lastField

/-- There is a field of a scalar kind. -/
def ScalarAt (linkage : Linkage) (table field : String) (kind : ScalarKind) : Prop :=
  ∃ target, linkage.fieldAt? table field = some target ∧ target.kind = .scalar kind

/-- No two of the fields that a walk passes have one text. -/
def Unambiguous (passed : List (NameKey × NameKey)) : Prop :=
  ∀ first ∈ passed, ∀ second ∈ passed, placeText first = placeText second → first = second

/-- What following a walk gives at the field that it has come to: a kind at a scalar field,
and a refusal where the names do not resolve, where the field neither is scalar nor refers to
another one, and where its text is that of a field that was passed. -/
inductive Ends (linkage : Linkage) (origin : String) (passed : List (NameKey × NameKey))
    (table field : String) : Except LinkError ScalarKind → Prop where
  | scalar {kind : ScalarKind} (scalar : linkage.ScalarAt table field kind) :
      Ends linkage origin passed table field (.ok kind)
  | schemaNotFound (absent : linkage.rowSchema? table = none) :
      Ends linkage origin passed table field (.error (.schemaNotFound table origin))
  | fieldNotFound {schema : Schema} (schemaFound : linkage.rowSchema? table = some schema)
      (absent : schema.field? field = none) :
      Ends linkage origin passed table field (.error (.fieldNotFound table field))
  | bare {target : Field} (found : linkage.fieldAt? table field = some target)
      (shape : target.head.shape = .lookup none) :
      Ends linkage origin passed table field
        (.error (.nonScalarLookup origin table field .lookup))
  | circular {target : Field} {reference : Option Reference} {earlier : NameKey × NameKey}
      (found : linkage.fieldAt? table field = some target)
      (shape : target.head.shape = .lookup reference) (before : earlier ∈ passed)
      (alike : placeText earlier = placeText (place table field)) :
      Ends linkage origin passed table field
        (.error (.nonScalarLookup origin table field .lookup))
  | compound {target : Field} {kind : Kind}
      (found : linkage.fieldAt? table field = some target) (ofKind : target.kind = kind)
      (notScalar : ∀ scalar, kind ≠ .scalar scalar) (notLookup : kind ≠ .lookup) :
      Ends linkage origin passed table field
        (.error (.nonScalarLookup origin table field kind))

/-! ## Walks that end at a scalar field -/

/-- What a walk comes to depends on the keys of the names only. -/
theorem fieldAt?_congr {table field other otherField : String}
    (same : place table field = place other otherField) :
    linkage.fieldAt? table field = linkage.fieldAt? other otherField := by
  rw [place, place, Prod.mk.injEq] at same
  have schemas : linkage.rowSchema? table = linkage.rowSchema? other := by
    unfold rowSchema? schema? table?
    rw [same.1]
  have fields : ∀ schema : Schema, schema.field? field = schema.field? otherField := by
    intro schema
    rw [Schema.field?_eq_find?, Schema.field?_eq_find?, same.2]
  simp only [fieldAt?, schemas, fields]

theorem fieldAt?_eq {table field : String} {schema : Schema} {target : Field}
    (schemaFound : linkage.rowSchema? table = some schema)
    (fieldFound : schema.field? field = some target) :
    linkage.fieldAt? table field = some target := by
  rw [fieldAt?, schemaFound, Option.bind_some, fieldFound]

theorem not_scalarAt_of_lookup {table field : String} {target : Field}
    {reference : Option Reference} {kind : ScalarKind}
    (found : linkage.fieldAt? table field = some target)
    (shape : target.head.shape = .lookup reference) : ¬linkage.ScalarAt table field kind := by
  rintro ⟨other, otherFound, scalar⟩
  cases found.symm.trans otherFound
  rw [Field.kind, shape] at scalar
  cases scalar

/-- From one field there is one walk to a scalar field. -/
theorem Walks.eq_of_scalarAt {table field last lastField : String}
    {passed : List (NameKey × NameKey)} {kind : ScalarKind}
    (first : linkage.Walks table field passed last lastField)
    (ends : linkage.ScalarAt last lastField kind)
    {other otherField otherLast otherLastField : String}
    {otherPassed : List (NameKey × NameKey)} {otherKind : ScalarKind}
    (second : linkage.Walks other otherField otherPassed otherLast otherLastField)
    (otherEnds : linkage.ScalarAt otherLast otherLastField otherKind)
    (same : place table field = place other otherField) : passed = otherPassed := by
  induction first generalizing other otherField otherPassed with
  | here table field =>
      cases second with
      | here => rfl
      | next found shape _ =>
          rw [← fieldAt?_congr same] at found
          exact absurd ends (not_scalarAt_of_lookup found shape)
  | next found shape _ inductionHypothesis =>
      cases second with
      | here =>
          rw [fieldAt?_congr same] at found
          exact absurd otherEnds (not_scalarAt_of_lookup found shape)
      | next otherFound otherShape further =>
          rw [fieldAt?_congr same, otherFound, Option.some.injEq] at found
          subst found
          cases shape.symm.trans otherShape
          rw [same, inductionHypothesis ends further rfl]

/-- From a field that a walk passes the rest of it is a walk. -/
theorem Walks.exists_rest {table field last lastField : String}
    {passed : List (NameKey × NameKey)}
    (walks : linkage.Walks table field passed last lastField) {visited : NameKey × NameKey}
    (member : visited ∈ passed) :
    ∃ middle middleField rest, place middle middleField = visited ∧ rest <:+ passed ∧
      linkage.Walks middle middleField rest last lastField := by
  induction walks with
  | here => cases member
  | next found shape further inductionHypothesis =>
      rcases List.mem_cons.mp member with rfl | later
      · exact ⟨_, _, _, rfl, List.suffix_refl _, .next found shape further⟩
      · obtain ⟨middle, middleField, rest, named, suffix, walks⟩ := inductionHypothesis later
        exact ⟨middle, middleField, rest, named, suffix.trans (List.suffix_cons _ _), walks⟩

/-- A walk to a scalar field passes no field twice: it would walk in circles. -/
theorem Walks.nodup {table field last lastField : String}
    {passed : List (NameKey × NameKey)} {kind : ScalarKind}
    (walks : linkage.Walks table field passed last lastField)
    (ends : linkage.ScalarAt last lastField kind) : passed.Nodup := by
  induction walks with
  | here => exact List.nodup_nil
  | next found shape further inductionHypothesis =>
      rw [List.nodup_cons]
      refine ⟨?_, inductionHypothesis ends⟩
      intro again
      obtain ⟨middle, middleField, rest, named, suffix, walks⟩ := further.exists_rest again
      have whole := (Walks.next found shape further).eq_of_scalarAt ends walks ends named.symm
      have shorter := suffix.length_le
      rw [← whole, List.length_cons] at shorter
      omega

/-! ## Following a walk -/

/-- The texts of the fields that a walk passes are known beforehand. -/
theorem placeText_mem_steps {table field : String} {target : Field}
    (found : linkage.fieldAt? table field = some target) :
    placeText (place table field) ∈ linkage.steps := by
  obtain ⟨schema, schemaFound, fieldFound⟩ := Option.bind_eq_some_iff.mp found
  obtain ⟨among, named⟩ := Schema.field?_eq_some_iff.mp fieldFound
  have listed : placeText (place table field) ∈ stepsOf (.of table) schema := by
    refine List.mem_map.mpr ⟨target, among, ?_⟩
    rw [named]
    rfl
  rw [steps, List.mem_append, List.mem_flatMap, List.mem_flatMap]
  rw [rowSchema?, Option.or_eq_some_iff] at schemaFound
  rcases schemaFound with held | ⟨_, held⟩
  · exact .inl ⟨(.of table, schema), Registry.find?_eq_some_iff.mp held, listed⟩
  · obtain ⟨rows, tableFound, rfl⟩ := Option.map_eq_some_iff.mp held
    exact .inr ⟨(.of table, rows), Registry.find?_eq_some_iff.mp tableFound, listed⟩

theorem Walks.placeText_mem_steps {table field last lastField : String}
    {passed : List (NameKey × NameKey)}
    (walks : linkage.Walks table field passed last lastField) :
    ∀ visited ∈ passed, placeText visited ∈ linkage.steps := by
  induction walks with
  | here => exact List.forall_mem_nil _
  | next found _ _ inductionHypothesis =>
      exact List.forall_mem_cons.mpr ⟨Linkage.placeText_mem_steps found, inductionHypothesis⟩

/-- A walk that ends at once. -/
theorem Ends.exists_walk {origin table field : String} {visited : List (NameKey × NameKey)}
    {outcome : Except LinkError ScalarKind} (apart : (visited.map placeText).Nodup)
    (ends : linkage.Ends origin visited table field outcome) :
    ∃ passed last lastField, linkage.Walks table field passed last lastField ∧
      ((visited ++ passed).map placeText).Nodup ∧
      linkage.Ends origin (visited ++ passed) last lastField outcome := by
  refine ⟨[], table, field, .here _ _, ?_⟩
  rw [List.append_nil]
  exact ⟨apart, ends⟩

/-- A walk is followed to where it ends, and that is reached in finitely many steps.  The
unvisited texts are those of the fields that were not passed. -/
theorem exists_walk_of_chainKind {origin table field : String} {unvisited : List String}
    {visited : List (NameKey × NameKey)}
    (divides : ∀ step ∈ linkage.steps, step ∈ unvisited ↔ step ∉ visited.map placeText)
    (apart : (visited.map placeText).Nodup) :
    ∃ passed last lastField, linkage.Walks table field passed last lastField ∧
      ((visited ++ passed).map placeText).Nodup ∧
      linkage.Ends origin (visited ++ passed) last lastField
        (linkage.chainKind origin table field unvisited) := by
  fun_induction chainKind linkage origin table field unvisited generalizing visited with
  | case1 table field unvisited absent => exact Ends.exists_walk apart (.schemaNotFound absent)
  | case2 table field unvisited schema schemaFound absent =>
      exact Ends.exists_walk apart (.fieldNotFound schemaFound absent)
  | case3 table field unvisited schema schemaFound target fieldFound kind reference shape =>
      have found := fieldAt?_eq schemaFound fieldFound
      have scalar : target.kind = .scalar kind := by rw [Field.kind, shape]; rfl
      exact Ends.exists_walk apart (.scalar ⟨target, found, scalar⟩)
  | case4 table field unvisited schema schemaFound target fieldFound step fresh =>
      rename_i shape
      exact Ends.exists_walk apart (.bare (fieldAt?_eq schemaFound fieldFound) shape)
  | case5 table field unvisited schema schemaFound target fieldFound step fresh next shape =>
      rename_i inductionHypothesis
      have found := fieldAt?_eq schemaFound fieldFound
      have new := (divides step (placeText_mem_steps found)).mp fresh
      have dividesNext : ∀ other ∈ linkage.steps, other ∈ without unvisited step ↔
          other ∉ (visited ++ [place table field]).map placeText := by
        intro other known
        rw [mem_without, divides other known, List.map_append, List.mem_append,
          List.map_singleton, List.mem_singleton, not_or]
        rfl
      have apartNext : ((visited ++ [place table field]).map placeText).Nodup := by
        rw [List.map_append, List.map_singleton, List.nodup_append]
        refine ⟨apart, List.nodup_singleton _, ?_⟩
        rintro earlier member _ (_ | _) rfl
        · exact new member
        · contradiction
      obtain ⟨passed, last, lastField, walks, whole, ends⟩ :=
        inductionHypothesis dividesNext apartNext
      rw [← List.append_cons] at whole ends
      exact ⟨_, last, lastField, .next found shape walks, whole, ends⟩
  | case6 table field unvisited schema schemaFound target fieldFound reference =>
      rename_i shape step used
      have found := fieldAt?_eq schemaFound fieldFound
      have again : step ∈ visited.map placeText := by
        by_contra new
        exact used ((divides step (placeText_mem_steps found)).mpr new)
      obtain ⟨earlier, before, alike⟩ := List.mem_map.mp again
      exact Ends.exists_walk apart (.circular found shape before alike)
  | case7 table field unvisited schema schemaFound target fieldFound notScalar notLookup =>
      have found := fieldAt?_eq schemaFound fieldFound
      refine Ends.exists_walk apart (.compound found rfl ?_ ?_)
      · intro kind same
        obtain ⟨reference, shape⟩ := Shape.exists_scalar_of_kind same
        exact notScalar kind reference shape
      · intro same
        obtain ⟨reference, shape⟩ := Shape.exists_lookup_of_kind same
        exact notLookup reference shape

/-- Every walk is followed to where it ends, and passes no two fields of one text. -/
theorem exists_walk (linkage : Linkage) (origin table start : String) :
    ∃ passed last lastField, linkage.Walks table start passed last lastField ∧
      (passed.map placeText).Nodup ∧
        linkage.Ends origin passed last lastField
          (linkage.chainKind origin table start linkage.steps) := by
  have fresh : ∀ step ∈ linkage.steps, step ∈ linkage.steps ↔ step ∉ [].map placeText := by
    simp
  exact exists_walk_of_chainKind fresh List.nodup_nil

/-- A walk to a scalar field is followed when its texts are all different. -/
theorem chainKind_of_walks {table field last lastField : String}
    {passed : List (NameKey × NameKey)} {kind : ScalarKind}
    (walks : linkage.Walks table field passed last lastField)
    (scalar : linkage.ScalarAt last lastField kind) (apart : (passed.map placeText).Nodup)
    (origin : String) {unvisited : List String}
    (left : ∀ visited ∈ passed, placeText visited ∈ unvisited) :
    linkage.chainKind origin table field unvisited = .ok kind := by
  induction walks generalizing unvisited with
  | here table field =>
      rcases scalar with ⟨target, found, ofKind⟩
      obtain ⟨schema, schemaFound, fieldFound⟩ := Option.bind_eq_some_iff.mp found
      obtain ⟨reference, shape⟩ := Shape.exists_scalar_of_kind ofKind
      unfold chainKind
      simp only [schemaFound, fieldFound, shape]
  | @next table field _ _ passed _ _ found shape _ inductionHypothesis =>
      obtain ⟨schema, schemaFound, fieldFound⟩ := Option.bind_eq_some_iff.mp found
      rw [List.map_cons, List.nodup_cons] at apart
      rw [List.forall_mem_cons] at left
      have fresh : stepText (.of table) (.of field) ∈ unvisited := left.1
      have further : ∀ visited ∈ passed, placeText visited ∈
          without unvisited (stepText (.of table) (.of field)) := by
        intro visited member
        refine mem_without.mpr ⟨left.2 visited member, ?_⟩
        intro same
        exact apart.1 (List.mem_map.mpr ⟨visited, member, same⟩)
      unfold chainKind
      simp only [schemaFound, fieldFound, shape]
      rw [dif_pos fresh]
      exact inductionHypothesis scalar apart.2 further

/-- The walk from a field is followed to a scalar field of a kind. -/
def FollowedTo (linkage : Linkage) (table field : String) (kind : ScalarKind) : Prop :=
  ∃ passed last lastField, linkage.Walks table field passed last lastField ∧
    linkage.ScalarAt last lastField kind ∧ Unambiguous passed

/-- Following a walk gives a kind exactly when the walk comes to a scalar field of that kind
and no two of the lookups that it passes have one text. -/
theorem chainKind_eq_ok_iff {origin table field : String} {kind : ScalarKind} :
    linkage.chainKind origin table field linkage.steps = .ok kind ↔
      linkage.FollowedTo table field kind := by
  constructor
  · intro followed
    obtain ⟨passed, last, lastField, walks, apart, ends⟩ :=
      linkage.exists_walk origin table field
    rw [followed] at ends
    cases ends with
    | scalar scalar =>
        exact ⟨passed, last, lastField, walks, scalar, List.inj_on_of_nodup_map apart⟩
  · rintro ⟨passed, last, lastField, walks, scalar, unambiguous⟩
    have apart := (List.nodup_map_iff_inj_on (walks.nodup scalar)).mpr unambiguous
    exact chainKind_of_walks walks scalar apart origin walks.placeText_mem_steps

/-! ## Settling lookups -/

/-- What a lookup becomes when its walks have come to two kinds. -/
def settledShape (reference : Reference) (keyKind pickedKind : ScalarKind) : Shape :=
  .scalar keyKind (some { reference with pickedKind := some (.scalar pickedKind) })

theorem exists_settled_iff {field : Field} {reference : Reference}
    {keyKind pickedKind : ScalarKind} :
    (∃ settled, linkage.settleLookup field (some reference) = .ok settled ∧
      settled.head.shape = settledShape reference keyKind pickedKind) ↔
    linkage.FollowedTo reference.table reference.keyField keyKind ∧
      linkage.FollowedTo reference.table reference.pickedField pickedKind ∧
        ∃ fallback, ConvertsFallback keyKind field.head.fallback fallback := by
  simp only [settleLookup, bind_eq_ok_iff, mapError_eq_ok_iff, chainKind_eq_ok_iff]
  constructor
  · rintro ⟨settled, ⟨_, key, _, picked, settling⟩, shape⟩
    obtain ⟨fallback, converts, head⟩ := Field.head_settleLookup settling
    rw [head] at shape
    cases shape
    exact ⟨key, picked, fallback, converts⟩
  · rintro ⟨key, picked, converts⟩
    obtain ⟨settled, settling⟩ := Field.exists_settleLookup_iff.mpr converts
    obtain ⟨_, _, head⟩ := Field.head_settleLookup settling
    exact ⟨settled, ⟨keyKind, key, pickedKind, picked, settling⟩, by rw [head]; rfl⟩

/-! ## Names without points -/

/-- Different fields have different texts. -/
def TellsApart (linkage : Linkage) : Prop :=
  ∀ table field other otherField, (linkage.fieldAt? table field).isSome = true →
    (linkage.fieldAt? other otherField).isSome = true →
      placeText (place table field) = placeText (place other otherField) →
        place table field = place other otherField

theorem toList_placeText (visited : NameKey × NameKey) :
    (placeText visited).toList = visited.1.text.toList ++ '.' :: visited.2.text.toList := by
  have joined : placeText visited = visited.1.text ++ "." ++ visited.2.text := rfl
  rw [joined, String.toList_append, String.toList_append, List.append_assoc]
  rfl

/-- The fields that a walk can come to are those of registered schemas and of tables. -/
theorem contains_of_fieldAt? {table field : String}
    (known : (linkage.fieldAt? table field).isSome = true) :
    linkage.schemas.contains (.of table) = true ∨
      linkage.tables.contains (.of table) = true := by
  obtain ⟨target, found⟩ := Option.isSome_iff_exists.mp known
  obtain ⟨schema, schemaFound, _⟩ := Option.bind_eq_some_iff.mp found
  rw [rowSchema?, Option.or_eq_some_iff] at schemaFound
  rcases schemaFound with held | ⟨_, held⟩
  · exact .inl (Option.isSome_iff_exists.mpr ⟨schema, held⟩)
  · obtain ⟨rows, tableFound, _⟩ := Option.map_eq_some_iff.mp held
    exact .inr (Option.isSome_iff_exists.mpr ⟨rows, tableFound⟩)

/-- The texts of fields differ when no schema and no table has a point in its name. -/
theorem tellsApart_of_no_points
    (free : ∀ key, linkage.schemas.contains key = true ∨ linkage.tables.contains key = true →
      '.' ∉ key.text.toList) : linkage.TellsApart := by
  have freeAt : ∀ table field, (linkage.fieldAt? table field).isSome = true →
      ∀ c ∈ (NameKey.of table).text.toList, (c == '.') = false := by
    intro table field known c member
    rw [beq_eq_false_iff_ne]
    rintro rfl
    exact free _ (contains_of_fieldAt? known) member
  have marked : ∀ rest : List Char, ∀ c ∈ ('.' :: rest).head?, (c == '.') = true := by
    simp
  intro table field other otherField known otherKnown same
  have joined := congrArg String.toList same
  rw [toList_placeText, toList_placeText] at joined
  obtain ⟨tables, fields⟩ := Text.append_inj_of_marks (freeAt _ _ known)
    (freeAt _ _ otherKnown) (marked _) (marked _) joined
  rw [List.cons.injEq] at fields
  have sameTable : NameKey.of table = NameKey.of other :=
    congrArg NameKey.mk (String.toList_inj.mp tables)
  have sameField : NameKey.of field = NameKey.of otherField :=
    congrArg NameKey.mk (String.toList_inj.mp fields.2)
  rw [place, place, sameTable, sameField]

/-! ## The walks of a linkage -/

/-- A walk comes to a scalar field exactly when its chain of lookups leads to the kind. -/
theorem leadsTo_iff {table field : String} {kind : ScalarKind} :
    linkage.LeadsTo table field kind ↔ ∃ passed last lastField,
      linkage.Walks table field passed last lastField ∧
        linkage.ScalarAt last lastField kind := by
  constructor
  · intro leads
    induction leads with
    | scalar schemaFound fieldFound shape =>
        have found := fieldAt?_eq schemaFound fieldFound
        exact ⟨[], _, _, .here _ _, _, found, by rw [Field.kind, shape]; rfl⟩
    | lookup schemaFound fieldFound shape _ inductionHypothesis =>
        obtain ⟨passed, last, lastField, walks, scalar⟩ := inductionHypothesis
        exact ⟨_, last, lastField, .next (fieldAt?_eq schemaFound fieldFound) shape walks, scalar⟩
  · rintro ⟨passed, last, lastField, walks, scalar⟩
    induction walks with
    | here =>
        obtain ⟨target, found, ofKind⟩ := scalar
        obtain ⟨schema, schemaFound, fieldFound⟩ := Option.bind_eq_some_iff.mp found
        obtain ⟨reference, shape⟩ := Shape.exists_scalar_of_kind ofKind
        exact .scalar schemaFound fieldFound shape
    | next found shape _ inductionHypothesis =>
        obtain ⟨schema, schemaFound, fieldFound⟩ := Option.bind_eq_some_iff.mp found
        exact .lookup schemaFound fieldFound shape (inductionHypothesis scalar)

/-- What a walk passes are fields. -/
theorem Walks.exists_field {table field last lastField : String}
    {passed : List (NameKey × NameKey)}
    (walks : linkage.Walks table field passed last lastField) {visited : NameKey × NameKey}
    (member : visited ∈ passed) :
    ∃ other otherField, place other otherField = visited ∧
      (linkage.fieldAt? other otherField).isSome = true := by
  induction walks with
  | here => cases member
  | @next table field _ _ _ _ _ found _ _ inductionHypothesis =>
      rcases List.mem_cons.mp member with rfl | later
      · exact ⟨table, field, rfl, Option.isSome_iff_exists.mpr ⟨_, found⟩⟩
      · exact inductionHypothesis later

/-- A walk that has come to a lookup goes on. -/
theorem Walks.extend {table field last lastField : String}
    {passed : List (NameKey × NameKey)} {target : Field} {reference : Reference}
    (walks : linkage.Walks table field passed last lastField)
    (found : linkage.fieldAt? last lastField = some target)
    (shape : target.head.shape = .lookup (some reference)) :
    linkage.Walks table field (passed ++ [place last lastField]) reference.table
      reference.keyField := by
  induction walks with
  | here table field => exact .next found shape (.here _ _)
  | next otherFound otherShape _ inductionHypothesis =>
      exact .next otherFound otherShape (inductionHypothesis found)

/-- Where texts tell fields apart, no walk is ambiguous. -/
theorem TellsApart.unambiguous (apart : linkage.TellsApart)
    {table field last lastField : String} {passed : List (NameKey × NameKey)}
    (walks : linkage.Walks table field passed last lastField) : Unambiguous passed := by
  intro first member second otherMember same
  obtain ⟨table, field, rfl, known⟩ := walks.exists_field member
  obtain ⟨other, otherField, rfl, otherKnown⟩ := walks.exists_field otherMember
  exact apart table field other otherField known otherKnown same

/-- Every walk from a field passes no lookup twice. -/
def NeverRepeats (linkage : Linkage) (table start : String) : Prop :=
  ∀ passed last lastField, linkage.Walks table start passed last lastField → passed.Nodup

/-- Following the walk from a field is refused at a lookup, although that refers on. -/
def RefusesCircle (linkage : Linkage) (origin table start : String) : Prop :=
  ∃ last lastField target reference, linkage.fieldAt? last lastField = some target ∧
    target.head.shape = .lookup (some reference) ∧
    linkage.chainKind origin table start linkage.steps =
      .error (.nonScalarLookup origin last lastField .lookup)

/-- Where texts tell fields apart, only walks that come to a field again are refused as
circles. -/
theorem TellsApart.not_refusesCircle (apart : linkage.TellsApart) {table start : String}
    (never : linkage.NeverRepeats table start) (origin : String) :
    ¬linkage.RefusesCircle origin table start := by
  rintro ⟨last, lastField, target, reference, found, shape, refused⟩
  obtain ⟨passed, _, _, walks, _, ends⟩ := linkage.exists_walk origin table start
  rw [refused] at ends
  cases ends with
  | bare otherFound otherShape =>
      cases found.symm.trans otherFound
      cases shape.symm.trans otherShape
  | circular _ _ before alike =>
      obtain ⟨other, otherField, rfl, known⟩ := walks.exists_field before
      have again := apart _ _ _ _ known (Option.isSome_iff_exists.mpr ⟨target, found⟩) alike
      have once := never _ _ _ (walks.extend found shape)
      rw [List.nodup_append] at once
      exact once.2.2 _ before _ (List.mem_singleton.mpr rfl) again
  | compound _ _ _ notLookup => exact absurd rfl notLookup

/-- Where texts tell fields apart, every walk to a scalar field is followed. -/
theorem TellsApart.followedTo_iff (apart : linkage.TellsApart) {table start : String}
    {kind : ScalarKind} :
    linkage.FollowedTo table start kind ↔ linkage.LeadsTo table start kind := by
  rw [leadsTo_iff]
  constructor
  · rintro ⟨passed, last, lastField, walks, scalar, _⟩
    exact ⟨passed, last, lastField, walks, scalar⟩
  · rintro ⟨passed, last, lastField, walks, scalar⟩
    exact ⟨passed, last, lastField, walks, scalar, apart.unambiguous walks⟩

/-- Following a walk along lookups ends after finitely many steps, with the kind of a scalar
field or with a refusal that names where it ended; it is refused as a circle only at a field
whose text is that of one that was passed.  A lookup settles exactly when its two walks come
to scalar fields, no two lookups on either of them have one text, and its fallback becomes a
value of the kind of its key.  The two kinds are then its own and its picked kind.  Where
texts tell fields apart, a lookup needs no more than walks to scalar fields, and no walk is
refused as a circle unless it comes to a field again. -/
theorem lookup_walks_are_followed (linkage : Linkage) (field : Field) (reference : Reference) :
    (∀ table start, ∃ passed last lastField,
      linkage.Walks table start passed last lastField ∧ passed.Nodup ∧
        linkage.Ends field.name passed last lastField
          (linkage.chainKind field.name table start linkage.steps)) ∧
    (∀ settled, linkage.settleLookup field (some reference) = .ok settled →
      ∃ keyKind pickedKind,
        settled.head.shape = settledShape reference keyKind pickedKind) ∧
    (∀ keyKind pickedKind,
      (∃ settled, linkage.settleLookup field (some reference) = .ok settled ∧
        settled.head.shape = settledShape reference keyKind pickedKind) ↔
      linkage.FollowedTo reference.table reference.keyField keyKind ∧
        linkage.FollowedTo reference.table reference.pickedField pickedKind ∧
          ∃ fallback, ConvertsFallback keyKind field.head.fallback fallback) ∧
    (linkage.TellsApart → ∀ table start,
      (∀ kind, linkage.FollowedTo table start kind ↔ linkage.LeadsTo table start kind) ∧
      (linkage.NeverRepeats table start → ¬linkage.RefusesCircle field.name table start)) := by
  refine ⟨?_, ?_, fun _ _ => exists_settled_iff, ?_⟩
  · intro table start
    obtain ⟨passed, last, lastField, walks, apart, ends⟩ :=
      linkage.exists_walk field.name table start
    exact ⟨passed, last, lastField, walks, List.Nodup.of_map _ apart, ends⟩
  · intro settled accepted
    obtain ⟨keyKind, pickedKind, _, _, _, _, head⟩ := head_settleLookup accepted
    exact ⟨keyKind, pickedKind, by rw [head]; rfl⟩
  · intro apart table start
    exact ⟨fun _ => apart.followedTo_iff, fun never => apart.not_refusesCircle never _⟩

/-! ## A walk that is followed -/

/-- Cities, and stops with the numbers of cities. -/
def stopSchemas : List Schema :=
  [{ name := "City"
     fields := [.ofKind "id" (.scalar (.integer .bits32))] },
    { name := "Stop"
      fields := [.lookup "code" ⟨"City", "id", "id", none⟩] }]

/-- The reference to the code of a stop. -/
def stopReference : Reference :=
  ⟨"Stop", "code", "code", none⟩

theorem stop_walks_are_followed :
    ∃ linkage, (link stopSchemas []).result = .ok linkage ∧ linkage.TellsApart ∧
      ∃ settled, linkage.settleLookup (.lookup "stop" stopReference) (some stopReference) =
          .ok settled ∧
        settled.head.shape =
          settledShape stopReference (.integer .bits32) (.integer .bits32) := by
  have computed : (do
      let linkage ← (link stopSchemas []).result
      return (linkage.schemas.keys, linkage.tables.keys,
        (linkage.chainKind "stop" "Stop" "code" linkage.steps).toOption)) =
      .ok ([.of "city", .of "stop"], [], some (.integer .bits32)) := by
    decide +kernel
  simp only [bind_eq_ok_iff, pure_eq_ok_iff, Prod.mk.injEq] at computed
  rcases computed with ⟨linkage, linked, schemaKeys, tableKeys, followed⟩
  have leads := leadsTo_of_chainKind (toOption_eq_some_iff.mp followed)
  have apart : linkage.TellsApart := by
    apply tellsApart_of_no_points
    have free : ∀ key ∈ [NameKey.of "city", .of "stop"], '.' ∉ key.text.toList := by
      decide +kernel
    intro key held
    rw [← Registry.mem_keys_iff, ← Registry.mem_keys_iff, schemaKeys, tableKeys] at held
    rcases held with among | among
    · exact free key among
    · cases among
  obtain ⟨_, _, settles, whenApart⟩ :=
    lookup_walks_are_followed linkage (.lookup "stop" stopReference) stopReference
  have key := ((whenApart apart _ _).1 _).mpr leads
  exact ⟨linkage, linked, apart, (settles _ _).mpr ⟨key, key, none, .absent⟩⟩

/-! ## A walk that is taken for a circle -/

/-- A way from a map to a city through two fields of one text: that of the map is named
`city.code`, and that of the city map is named `code`. -/
def citySchemas : List Schema :=
  [{ name := "City"
     fields := [.ofKind "id" (.scalar (.integer .bits32))] },
    { name := "Map.city"
      fields := [.lookup "code" ⟨"City", "id", "id", none⟩] },
    { name := "Map"
      fields := [.lookup "city.code" ⟨"Map.city", "code", "code", none⟩] }]

/-- The reference of a trip to its goal on the map. -/
def goal : Reference :=
  ⟨"Map", "city.code", "city.code", none⟩

theorem exists_linked_cities :
    ∃ linkage, (link citySchemas []).result = .ok linkage ∧
      linkage.LeadsTo "Map" "city.code" (.integer .bits32) ∧
      linkage.settleLookup (.lookup "goal" goal) (some goal) =
        .error (.nonScalarLookup "goal" "Map.city" "code" .lookup) := by
  have computed : (do
      let linkage ← (link citySchemas []).result
      return ((linkage.fieldAt? "Map" "city.code").map fun (field : Field) =>
          (field.kind, field.reference?.map fun (reference : Reference) =>
            (reference.table, reference.keyField)),
        (linkage.chainKind "goal" "Map.city" "code" linkage.steps).toOption,
        (linkage.settleLookup (.lookup "goal" goal) (some goal)).map fun _ => ())) =
      .ok (some (Kind.lookup, some ("Map.city", "code")), some (.integer .bits32),
        .error (.nonScalarLookup "goal" "Map.city" "code" .lookup)) := by
    decide +kernel
  simp only [bind_eq_ok_iff, pure_eq_ok_iff, Prod.mk.injEq, Option.map_eq_some_iff] at computed
  rcases computed with ⟨linkage, linked, ⟨target, found, ofKind, ⟨table, keyField, _, _⟩, refers,
    rfl, rfl⟩, followed, refused⟩
  rw [map_eq_error_iff] at refused
  refine ⟨linkage, linked, ?_, refused⟩
  obtain ⟨schema, schemaFound, fieldFound⟩ := Option.bind_eq_some_iff.mp found
  obtain ⟨reference, shape⟩ := Shape.exists_lookup_of_kind ofKind
  rw [Field.reference?, shape] at refers
  cases refers
  exact .lookup schemaFound fieldFound shape
    (leadsTo_of_chainKind (toOption_eq_some_iff.mp followed))

/-- Walks to scalar fields are not always followed: one is taken for a circle when it passes
two fields of one text. -/
theorem open_walks_are_refused :
    ¬∀ schemas tables linkage, (link schemas tables).result = .ok linkage →
      ∀ (field : Field) (reference : Reference) (keyKind pickedKind : ScalarKind),
        linkage.LeadsTo reference.table reference.keyField keyKind →
          linkage.LeadsTo reference.table reference.pickedField pickedKind →
            field.head.fallback = none →
              ∃ settled, linkage.settleLookup field (some reference) = .ok settled := by
  intro settles
  obtain ⟨linkage, linked, leads, refused⟩ := exists_linked_cities
  obtain ⟨settled, accepted⟩ :=
    settles _ _ linkage linked (.lookup "goal" goal) goal _ _ leads leads rfl
  rw [refused] at accepted
  cases accepted

end Linkage

end Tabula
