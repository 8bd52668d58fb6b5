import Mathlib.Data.Setoid.Basic
import Tabula.Proofs.Correspondence
import Tabula.Proofs.Field.Compatibility

/-!
# Compatibility as an equivalence

The profile of a field keeps what compatibility looks at, in a form without order and
spelling: for each head along the chain its shape with the keys of the names in it, its flags,
and the sets of the keys of its tags.  Fields that are complete are compatible exactly when
their profiles are equal, so compatibility is an equivalence on them, and changing what a
profile leaves out makes no difference.

A list without elements has to be left aside, for it is compatible with nothing, and so has an
embedded field that names no schema, for it is compatible with every embedded field.
-/

namespace Tabula

/-! ## Profiles -/

/-- The names of the reference as keys, without what is remembered of the picked field. -/
def Reference.profile (reference : Reference) : Reference where
  table := (NameKey.of reference.table).text
  keyField := (NameKey.of reference.keyField).text
  pickedField := (NameKey.of reference.pickedField).text

/-- The shape with the names in it as keys. -/
def Shape.profile : Shape → Shape
  | scalar kind reference => scalar kind (reference.map Reference.profile)
  | list count => list count
  | embedded target => embedded (target.map fun name => (NameKey.of name).text)
  | lookup reference => lookup (reference.map Reference.profile)
  | unresolved => unresolved

/-- What compatibility looks at in a head. -/
structure Profile where
  shape : Shape
  nullable : Bool
  autoIncrement : Bool
  unique : Bool
  transient : Bool
  groups : Finset NameKey
  disabled : Finset NameKey
  keys : Finset NameKey

/-- The profile of a head. -/
def FieldHead.profile (head : FieldHead) : Profile where
  shape := head.shape.profile
  nullable := head.nullable
  autoIncrement := head.autoIncrement
  unique := head.unique
  transient := head.transient
  groups := head.groups.keySet
  disabled := head.disabled.keySet
  keys := head.keys.keySet

/-- The profiles of the heads along the chain, down to the first that is no list. -/
def Field.profiles : Field → List Profile
  | .single head => [head.profile]
  | .withElement head element =>
    head.profile :: if head.shape.kind = .list then element.profiles else []

/-- The field has a template of its elements if it is a list, and so have the elements that are
lists themselves. -/
def Field.HasElements : Field → Prop
  | .single head => head.shape.kind ≠ .list
  | .withElement head element => head.shape.kind = .list → element.HasElements

/-- Nothing is missing from the field that its kind asks for. -/
structure Field.Complete (field : Field) : Prop where
  elements : field.HasElements
  targets : field.NamesTarget

/-- No field of the schema misses anything. -/
def Schema.Complete (schema : Schema) : Prop :=
  ∀ field ∈ schema.fields, field.Complete

theorem Reference.sameTarget_iff_profile_eq {left right : Reference} :
    left.sameTarget right = true ↔ left.profile = right.profile := by
  simp [sameTarget_iff, profile, NameKey.of]

/-- The profile of a shape is made of its kind, its count, its target and its reference. -/
theorem Shape.profile_eq_iff {left right : Shape} :
    left.profile = right.profile ↔
      left.kind = right.kind ∧ left.count = right.count ∧
        left.target?.map NameKey.of = right.target?.map NameKey.of ∧
          left.reference?.map Reference.profile = right.reference?.map Reference.profile := by
  have texts (left right : Option String) :
      left.map (fun name => (NameKey.of name).text) =
          right.map (fun name => (NameKey.of name).text) ↔
        left.map NameKey.of = right.map NameKey.of := by
    cases left <;> cases right <;> simp [NameKey.of]
  cases left <;> cases right <;> simp [profile, kind, count, target?, reference?, texts]

namespace Field

variable {left right : Field}

/-! ## Heads -/

/-- Fields that inline nothing agree in their targets when their lookups have one profile. -/
theorem sameTarget_iff_of_target?_eq_none (inlinesNothing : left.target? = none) :
    left.sameTarget right = true ↔
      left.reference?.map Reference.profile = right.reference?.map Reference.profile := by
  rw [sameTarget, inlinesNothing]
  cases left.reference? <;> cases right.reference? <;>
    simp [Reference.sameTarget_iff_profile_eq]

theorem target?_eq_none_iff (named : left.NamesTarget) :
    left.target? = none ↔ left.kind ≠ .embedded := by
  rw [target?, Field.kind]
  constructor
  · intro none embedded
    obtain ⟨target, shape⟩ := named.exists_target embedded
    rw [shape] at none
    cases none
  · intro other
    cases shape : left.head.shape with
    | embedded => exact absurd (congrArg Shape.kind shape) other
    | scalar | list | lookup | unresolved => rfl

/-- Fields of one kind that name what they inline agree in their targets when these have the
same keys. -/
theorem sameTarget_iff (leftNamed : left.NamesTarget) (rightNamed : right.NamesTarget)
    (kinds : left.kind = right.kind) :
    left.sameTarget right = true ↔
      left.target?.map NameKey.of = right.target?.map NameKey.of ∧
        left.reference?.map Reference.profile = right.reference?.map Reference.profile := by
  by_cases embedded : left.kind = .embedded
  · obtain ⟨target, shape⟩ := leftNamed.exists_target embedded
    obtain ⟨other, otherShape⟩ := rightNamed.exists_target (kinds.symm.trans embedded)
    simp [sameTarget, target?, reference?, shape, otherShape, Shape.target?, Shape.reference?]
  · have leftNone := (target?_eq_none_iff leftNamed).mpr embedded
    have rightNone := (target?_eq_none_iff rightNamed).mpr (kinds ▸ embedded)
    rw [sameTarget_iff_of_target?_eq_none leftNone, leftNone, rightNone]
    exact (and_iff_right rfl).symm

/-- Heads of fields that name what they inline are compatible when they have one profile. -/
theorem compatibleHeads_iff_profile_eq (leftNamed : left.NamesTarget)
    (rightNamed : right.NamesTarget) :
    compatibleHeads left right = true ↔ left.head.profile = right.head.profile := by
  have targets := sameTarget_iff leftNamed rightNamed
  rw [compatibleHeads_iff, sameFlags_iff, NameSet.same_iff, NameSet.same_iff, NameSet.same_iff]
  simp only [FieldHead.profile, Profile.mk.injEq, Shape.profile_eq_iff]
  constructor
  · rintro ⟨kinds, counts, target, counted, unique, transient, nullable, tags⟩
    exact ⟨⟨kinds, counts, (targets kinds).mp target⟩, nullable, counted, unique, transient, tags⟩
  · rintro ⟨⟨kinds, counts, target⟩, nullable, counted, unique, transient, tags⟩
    exact ⟨kinds, counts, (targets kinds).mpr target, counted, unique, transient, nullable, tags⟩

/-! ## Fields -/

theorem Complete.element {head : FieldHead} {element : Field}
    (complete : (withElement head element).Complete) (list : head.shape.kind = .list) :
    element.Complete :=
  ⟨complete.elements list, complete.targets.2 list⟩

theorem kind_eq_of_profile_eq (same : left.head.profile = right.head.profile) :
    left.kind = right.kind :=
  (Shape.profile_eq_iff.mp (congrArg Profile.shape same)).1

theorem profiles_of_kind_ne_list (notList : left.kind ≠ .list) :
    left.profiles = [left.head.profile] := by
  cases left with
  | single head => rfl
  | withElement head element =>
      have bare : head.shape.kind ≠ .list := notList
      rw [profiles, if_neg bare]
      rfl

theorem profiles_of_list {head : FieldHead} (list : head.shape.kind = .list) (element : Field) :
    (withElement head element).profiles = head.profile :: element.profiles := by
  rw [profiles, if_pos list]

theorem head_profile_eq_of_profiles_eq (same : left.profiles = right.profiles) :
    left.head.profile = right.head.profile := by
  have tops (field : Field) : field.profiles.head? = some field.head.profile := by
    cases field <;> rfl
  have heads := congrArg List.head? same
  rwa [tops, tops, Option.some.injEq] at heads

theorem profiles_eq_iff_of_kind_ne_list (notList : left.kind ≠ .list) :
    left.profiles = right.profiles ↔ left.head.profile = right.head.profile := by
  constructor
  · exact head_profile_eq_of_profiles_eq
  · intro same
    have otherNotList : right.kind ≠ .list := kind_eq_of_profile_eq same ▸ notList
    rw [profiles_of_kind_ne_list notList, profiles_of_kind_ne_list otherNotList, same]

/-- A complete list has elements. -/
theorem Complete.exists_element (complete : left.Complete) (list : left.kind = .list) :
    ∃ head element, left = withElement head element ∧ head.shape.kind = .list := by
  cases left with
  | single head => exact absurd list complete.elements
  | withElement head element => exact ⟨head, element, rfl, list⟩

theorem compatible_iff_profiles_eq_of_kind_ne_list (leftNamed : left.NamesTarget)
    (rightNamed : right.NamesTarget) (notList : left.kind ≠ .list) :
    left.compatible right = true ↔ left.profiles = right.profiles := by
  rw [compatible_iff_of_kind_ne_list notList, compatibleHeads_iff_profile_eq leftNamed rightNamed,
    profiles_eq_iff_of_kind_ne_list notList]

/-- Complete fields are compatible when all their profiles are equal. -/
theorem compatible_iff_profiles_eq (leftComplete : left.Complete)
    (rightComplete : right.Complete) :
    left.compatible right = true ↔ left.profiles = right.profiles := by
  induction left generalizing right with
  | single head =>
      exact compatible_iff_profiles_eq_of_kind_ne_list leftComplete.targets rightComplete.targets
        leftComplete.elements
  | withElement head element inductionHypothesis =>
      by_cases list : (withElement head element).kind = .list
      · by_cases otherList : right.kind = .list
        · obtain ⟨otherHead, other, rfl, otherKind⟩ := rightComplete.exists_element otherList
          have kind : head.shape.kind = .list := list
          rw [compatible_withElement_iff kind,
            compatibleHeads_iff_profile_eq leftComplete.targets rightComplete.targets,
            inductionHypothesis (leftComplete.element kind) (rightComplete.element otherKind),
            profiles_of_list kind, profiles_of_list otherKind, List.cons.injEq]
          rfl
        · have differ : (withElement head element).kind ≠ right.kind := list ▸ Ne.symm otherList
          apply iff_of_false
          · intro agree
            exact differ (kind_eq_of_compatible agree)
          · intro same
            exact differ (kind_eq_of_profile_eq (head_profile_eq_of_profiles_eq same))
      · exact compatible_iff_profiles_eq_of_kind_ne_list leftComplete.targets
          rightComplete.targets list

end Field

/-- Complete fields are compatible, position for position, when their profiles are equal. -/
theorem compatibleFields_iff_profiles_eq {lefts rights : List Field}
    (leftComplete : ∀ field ∈ lefts, field.Complete)
    (rightComplete : ∀ field ∈ rights, field.Complete) :
    compatibleFields lefts rights = true ↔
      lefts.map Field.profiles = rights.map Field.profiles := by
  induction lefts generalizing rights with
  | nil => cases rights <;> simp [compatibleFields]
  | cons left lefts inductionHypothesis =>
      cases rights with
      | nil => simp [compatibleFields]
      | cons right rights =>
          rw [List.forall_mem_cons] at leftComplete rightComplete
          rw [compatibleFields, Bool.and_eq_true,
            Field.compatible_iff_profiles_eq leftComplete.1 rightComplete.1,
            inductionHypothesis leftComplete.2 rightComplete.2, List.map_cons, List.map_cons,
            List.cons.injEq]

/-! ## Rewording -/

/-- The heads have the same flags, the same tags in any order, and shapes in which names differ
in case at most.  Their names, descriptions, written types and fallbacks may be any. -/
structure FieldHead.Rewords (before after : FieldHead) : Prop where
  shape : after.shape.profile = before.shape.profile
  nullable : after.nullable = before.nullable
  autoIncrement : after.autoIncrement = before.autoIncrement
  unique : after.unique = before.unique
  transient : after.transient = before.transient
  groups : after.groups.names.Perm before.groups.names
  disabled : after.disabled.names.Perm before.disabled.names
  keys : after.keys.names.Perm before.keys.names

/-- The heads along the chains differ in words only. -/
inductive Field.Rewords : Field → Field → Prop where
  | single {before after : FieldHead} (head : before.Rewords after) :
      Rewords (.single before) (.single after)
  | withElement {before after : FieldHead} {element other : Field} (head : before.Rewords after)
      (below : element.Rewords other) :
      Rewords (.withElement before element) (.withElement after other)

/-- The fields of the schemas differ in words only, position for position. -/
def Schema.Rewords (before after : Schema) : Prop :=
  List.Forall₂ Field.Rewords before.fields after.fields

namespace FieldHead.Rewords

variable {before after : FieldHead}

theorem profile_eq (rewords : before.Rewords after) : after.profile = before.profile := by
  simp only [profile, Profile.mk.injEq]
  exact ⟨rewords.shape, rewords.nullable, rewords.autoIncrement, rewords.unique,
    rewords.transient, NameSet.keySet_eq_of_perm rewords.groups,
    NameSet.keySet_eq_of_perm rewords.disabled, NameSet.keySet_eq_of_perm rewords.keys⟩

theorem kind_eq (rewords : before.Rewords after) : after.shape.kind = before.shape.kind :=
  (Shape.profile_eq_iff.mp rewords.shape).1

theorem names (rewords : before.Rewords after) (named : before.shape ≠ .embedded none) :
    after.shape ≠ .embedded none := by
  intro unnamed
  apply named
  have same := rewords.shape
  rw [unnamed] at same
  cases shape : before.shape with
  | embedded target =>
      rw [shape] at same
      cases target with
      | none => rfl
      | some target => cases same
  | scalar | list | lookup | unresolved =>
      rw [shape] at same
      cases same

end FieldHead.Rewords

namespace Field.Rewords

variable {before after : Field}

theorem profiles_eq (rewords : before.Rewords after) : after.profiles = before.profiles := by
  induction rewords with
  | single head => rw [profiles, profiles, head.profile_eq]
  | withElement head _ inductionHypothesis =>
      rw [profiles, profiles, head.profile_eq, head.kind_eq, inductionHypothesis]

theorem complete (rewords : before.Rewords after) (complete : before.Complete) :
    after.Complete := by
  induction rewords with
  | single head =>
      constructor
      · intro list
        exact complete.elements (head.kind_eq.symm.trans list)
      · exact head.names complete.targets
  | withElement head _ inductionHypothesis =>
      constructor
      · intro list
        exact (inductionHypothesis (complete.element (head.kind_eq.symm.trans list))).elements
      · refine ⟨head.names complete.targets.1, fun list => ?_⟩
        exact (inductionHypothesis (complete.element (head.kind_eq.symm.trans list))).targets

end Field.Rewords

namespace Schema.Rewords

variable {before after : Schema}

theorem profiles_eq (rewords : before.Rewords after) :
    after.fields.map Field.profiles = before.fields.map Field.profiles := by
  rw [← List.forall₂_eq_eq_eq, List.forall₂_map_left_iff, List.forall₂_map_right_iff]
  exact rewords.flip.imp fun _ _ here => here.profiles_eq

theorem complete (rewords : before.Rewords after) (complete : before.Complete) :
    after.Complete := by
  intro field member
  obtain ⟨original, among, here⟩ := exists_mem_of_forall₂ rewords member
  exact here.complete (complete original among)

end Schema.Rewords

/-! ## Equivalence -/

/-- A relation that compares what a function gives is an equivalence. -/
theorem equivalence_of_iff {α β : Type} {Related : α → α → Prop} (view : α → β)
    (compares : ∀ left right, Related left right ↔ view left = view right) :
    Equivalence Related := by
  have same : Related = fun left right => view left = view right := by
    funext left right
    exact propext (compares left right)
  rw [same]
  exact (Setoid.ker view).iseqv

/-- Compatibility is an equivalence on complete fields and on schemas made of them, and words
make no difference to it. -/
theorem compatibility_is_equivalence :
    (Equivalence fun left right : { field : Field // field.Complete } =>
      left.val.compatible right.val = true) ∧
    (Equivalence fun left right : { schema : Schema // schema.Complete } =>
      left.val.compatible right.val = true) ∧
    (∀ {left right newLeft newRight : Field}, left.Complete → right.Complete →
      left.Rewords newLeft → right.Rewords newRight →
        newLeft.compatible newRight = left.compatible right) ∧
    (∀ {left right newLeft newRight : Schema}, left.Complete → right.Complete →
      left.Rewords newLeft → right.Rewords newRight →
        newLeft.compatible newRight = left.compatible right) := by
  refine ⟨?_, ?_, ?_, ?_⟩
  · apply equivalence_of_iff fun field => field.val.profiles
    intro left right
    exact Field.compatible_iff_profiles_eq left.property right.property
  · apply equivalence_of_iff fun schema => schema.val.fields.map Field.profiles
    intro left right
    exact compatibleFields_iff_profiles_eq left.property right.property
  · intro left right newLeft newRight leftComplete rightComplete leftRewords rightRewords
    rw [Bool.eq_iff_iff, Field.compatible_iff_profiles_eq leftComplete rightComplete,
      Field.compatible_iff_profiles_eq (leftRewords.complete leftComplete)
        (rightRewords.complete rightComplete),
      leftRewords.profiles_eq, rightRewords.profiles_eq]
  · intro left right newLeft newRight leftComplete rightComplete leftRewords rightRewords
    rw [Bool.eq_iff_iff, Schema.compatible, Schema.compatible,
      compatibleFields_iff_profiles_eq leftComplete rightComplete,
      compatibleFields_iff_profiles_eq (leftRewords.complete leftComplete)
        (rightRewords.complete rightComplete),
      leftRewords.profiles_eq, rightRewords.profiles_eq]

/-- Two berths, in words of our own. -/
def berthsField (name target : String) (groups : List String) : Field :=
  .withElement
    { name, typeText := "list", groups := .ofList groups, shape := .list 2 }
    (.single { name := "", typeText := target, shape := .embedded (some target) })

theorem berths_may_be_reworded :
    (berthsField "berths" "Berth" ["harbour", "map"]).Complete ∧
      (berthsField "berths" "Berth" ["harbour", "map"]).Rewords
        (berthsField "moorings" "BERTH" ["map", "harbour"]) ∧
      (berthsField "moorings" "BERTH" ["map", "harbour"]).compatible
        (berthsField "berths" "Berth" ["harbour", "map"]) = true := by
  have complete : (berthsField "berths" "Berth" ["harbour", "map"]).Complete := by
    refine ⟨fun _ list => ?_, ?_, fun _ embedded => ?_⟩
    · cases list
    · exact Shape.noConfusion
    · cases embedded
  have same : (berthsField "berths" "Berth" ["harbour", "map"]).Rewords
      (berthsField "berths" "Berth" ["harbour", "map"]) :=
    .withElement ⟨rfl, rfl, rfl, rfl, rfl, .refl _, .refl _, .refl _⟩
      (.single ⟨rfl, rfl, rfl, rfl, rfl, .refl _, .refl _, .refl _⟩)
  have target : Shape.profile (.embedded (some "BERTH")) =
      Shape.profile (.embedded (some "Berth")) := by
    have keys : NameKey.of "BERTH" = NameKey.of "Berth" := by decide +kernel
    rw [Shape.profile, Shape.profile, Option.map_some, Option.map_some, keys]
  have reordered : (NameSet.ofList ["map", "harbour"]).names.Perm
      (NameSet.ofList ["harbour", "map"]).names := by
    decide +kernel
  have rewords : (berthsField "berths" "Berth" ["harbour", "map"]).Rewords
      (berthsField "moorings" "BERTH" ["map", "harbour"]) :=
    .withElement ⟨rfl, rfl, rfl, rfl, rfl, reordered, .refl _, .refl _⟩
      (.single ⟨target, rfl, rfl, rfl, rfl, .refl _, .refl _, .refl _⟩)
  obtain ⟨fields, _, wordsLeaveFields, _⟩ := compatibility_is_equivalence
  refine ⟨complete, rewords, ?_⟩
  rw [wordsLeaveFields complete complete rewords same]
  exact fields.refl ⟨_, complete⟩

end Tabula
