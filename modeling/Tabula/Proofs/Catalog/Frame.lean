import Tabula.Proofs.Catalog.History

/-!
# What settling leaves alone

Settling decides the shapes of heads that wait and converts fallbacks.  All the rest of a
field is its outline, and no settling touches that: neither the traits of a head, nor how
many elements a list has, nor where a field is filed.  A field that does not wait is not
touched at all.

The number of settled fields is only right for a catalog whose pending positions are
those of the schemas that wait, each once.  And a field waits no more once it is settled,
provided that no head but that of a list carries a template: nothing ever settles what
stands below another head.
-/

namespace Tabula

/-! ## The outline of a field -/

/-- What settling may not change of a shape: whether it is a list, and of how many
elements. -/
def Shape.outline : Shape → Shape
  | list count => list count
  | _ => unresolved

/-- The head without its fallback and, unless it is a list, without its shape. -/
def FieldHead.outline (head : FieldHead) : FieldHead :=
  { head with shape := head.shape.outline, fallback := none }

theorem Shape.outline_of_isPending {shape : Shape} (pending : shape.kind.isPending = true) :
    shape.outline = .unresolved := by
  cases shape with
  | list count => cases pending
  | scalar kind reference => rfl
  | embedded target => rfl
  | lookup reference => rfl
  | unresolved => rfl

theorem Shape.kind_outline_eq_list_iff (shape : Shape) :
    shape.outline.kind = .list ↔ shape.kind = .list := by
  cases shape <;> simp [outline, Shape.kind]

/-- A waiting head keeps its outline under any shape that is no list. -/
theorem FieldHead.outline_reshaped {head : FieldHead}
    (waiting : head.shape.kind.isPending = true) {shape : Shape}
    (single : shape.outline = .unresolved) (fallback : Option Value) :
    FieldHead.outline { head with shape, fallback } = head.outline := by
  rw [outline, outline, single, Shape.outline_of_isPending waiting]

namespace Field

/-- The outlines of all heads along the chain. -/
def outline : Field → Field
  | single head => single head.outline
  | withElement head element => withElement head.outline element.outline

theorem outline_mapHead {change : FieldHead → FieldHead} {field : Field}
    (same : (change field.head).outline = field.head.outline) :
    (field.mapHead change).outline = field.outline := by
  cases field with
  | single head => exact congrArg single same
  | withElement head element => exact congrArg (withElement · element.outline) same

theorem outline_clearFallback (field : Field) :
    field.clearFallback.outline = field.outline := by
  induction field with
  | single head => rfl
  | withElement head element inductionHypothesis =>
      exact congrArg (withElement head.outline) inductionHypothesis

theorem outline_setFallback {field result : Field} {value : Value}
    (accepted : field.setFallback value = .ok result) : result.outline = field.outline := by
  rw [← outline_clearFallback, clearFallback_setFallback accepted, outline_clearFallback]

theorem outline_assignFallback {field result : Field} {fallback : Option Value}
    (accepted : field.assignFallback fallback = .ok result) :
    result.outline = field.outline := by
  rw [← outline_clearFallback, clearFallback_assignFallback accepted, outline_clearFallback]

theorem outline_setElement {field element result : Field}
    (accepted : field.setElement element = .ok result) :
    result.outline = withElement field.head.outline element.outline := by
  unfold setElement at accepted
  split at accepted
  · cases accepted
    rfl
  · simp only [bind_eq_ok_iff, pure_eq_ok_iff] at accepted
    rcases accepted with ⟨below, handed, rfl⟩
    exact congrArg (withElement field.head.outline) (outline_setFallback handed)

/-- A field settles into one of the same outline. -/
theorem SettlesInto.outline {before after : Field} (into : SettlesInto before after) :
    after.outline = before.outline := by
  induction into with
  | embedded waiting target =>
      apply outline_mapHead
      exact FieldHead.outline_reshaped waiting rfl _
  | lookup waiting accepted =>
      rw [outline_assignFallback accepted]
      apply outline_mapHead
      exact FieldHead.outline_reshaped waiting rfl _
  | @element head element settled result count list _ accepted inductionHypothesis =>
      rw [outline_setElement accepted, inductionHypothesis]
      rfl

/-! ## Templates of elements -/

/-- No head but those of lists carries a template. -/
def templatesOnLists : Field → Bool
  | single _ => true
  | withElement head element => head.shape.kind = .list && element.templatesOnLists

theorem templatesOnLists_outline (field : Field) :
    field.outline.templatesOnLists = field.templatesOnLists := by
  induction field with
  | single head => rfl
  | withElement head element inductionHypothesis =>
      rw [outline, templatesOnLists, templatesOnLists, inductionHypothesis]
      simp only [FieldHead.outline, Shape.kind_outline_eq_list_iff]

/-- With templates on lists only, the first head that is no list is the last one. -/
theorem waits_eq_isPending {field : Field} (templates : field.templatesOnLists = true) :
    field.waits = field.isPending := by
  induction field with
  | single head => rfl
  | withElement head element inductionHypothesis =>
      rw [templatesOnLists, Bool.and_eq_true, decide_eq_true_eq] at templates
      rcases Shape.exists_list_of_kind templates.1 with ⟨count, list⟩
      rw [isPending, ← inductionHypothesis templates.2]
      simp [waits, list, Shape.kind, Kind.isPending]

/-- A settled field with templates on lists only waits no more. -/
theorem SettlesInto.done {before after : Field} (into : SettlesInto before after)
    (templates : before.templatesOnLists = true) : after.isPending = false := by
  have onLists : after.templatesOnLists = true := by
    rw [← templatesOnLists_outline, into.outline, templatesOnLists_outline, templates]
  rw [← waits_eq_isPending onLists]
  exact into.settles.done

/-! ## Fields that are kept or settled -/

/-- The field is the same, or it has waited and waits no more, and its outline is the
same. -/
inductive KeptOrSettled : Field → Field → Prop where
  | same (field : Field) : KeptOrSettled field field
  | settled {before after : Field} (waited : before.isPending = true)
      (done : after.isPending = false) (outline : after.outline = before.outline) :
      KeptOrSettled before after

namespace KeptOrSettled

variable {before after : Field}

theorem outline_eq (kept : KeptOrSettled before after) : after.outline = before.outline := by
  cases kept with
  | same => rfl
  | settled _ _ outline => exact outline

theorem isPending (kept : KeptOrSettled before after) (pending : after.isPending = true) :
    before.isPending = true := by
  cases kept with
  | same => exact pending
  | settled waited _ _ => exact waited

/-- What has settled is kept from then on. -/
theorem trans {last : Field} (first : KeptOrSettled before after)
    (second : KeptOrSettled after last) : KeptOrSettled before last := by
  cases second with
  | same => exact first
  | settled waited done outline =>
      exact .settled (first.isPending waited) done (outline.trans first.outline_eq)

/-- Settling a field with templates on lists only keeps its outline and ends its waiting. -/
theorem of_advances {catalog : Catalog} {schema : String}
    (templates : before.templatesOnLists = true)
    (advances : catalog.Advances schema before after) : KeptOrSettled before after := by
  rcases advances with rfl | accepted
  · exact .same after
  · have into := Catalog.settlesInto_of_settleField accepted
    exact .settled (isPending_of_waits into.settles.waited) (into.done templates) into.outline

end KeptOrSettled

end Field

/-! ## Schemas -/

namespace SchemaIndex

/-- A field is filed by its outline. -/
theorem file_outline (index : SchemaIndex) (position : Nat) (field : Field) :
    index.file position field.outline = index.file position field := by
  cases field <;> rfl

theorem fileAll_map_outline (index : SchemaIndex) (start : Nat) (fields : List Field) :
    index.fileAll start (fields.map Field.outline) = index.fileAll start fields := by
  induction fields generalizing index start with
  | nil => rfl
  | cons field fields inductionHypothesis =>
      rw [List.map_cons, fileAll, fileAll, file_outline, inductionHypothesis]

end SchemaIndex

namespace Schema

variable {before after : Schema}

/-- Settling moves no field and refiles none. -/
theorem Follows.index (follows : Follows Field.KeptOrSettled before after) :
    after.index = before.index := by
  have outlines : after.fields.map Field.outline = before.fields.map Field.outline := by
    rw [← List.forall₂_eq_eq_eq, List.forall₂_map_left_iff, List.forall₂_map_right_iff]
    exact follows.fields.flip.imp fun _ _ kept => kept.outline_eq
  rw [after.indexed, before.indexed, SchemaIndex.ofFields, SchemaIndex.ofFields,
    ← SchemaIndex.fileAll_map_outline, outlines, SchemaIndex.fileAll_map_outline]

theorem Follows.isPending (follows : Follows Field.KeptOrSettled before after)
    (pending : after.isPending = true) : before.isPending = true := by
  rw [Schema.isPending, List.any_eq_true] at pending ⊢
  rcases pending with ⟨field, member, waits⟩
  rcases exists_mem_of_forall₂ follows.fields member with ⟨old, present, kept⟩
  exact ⟨old, present, kept.isPending waits⟩

end Schema

/-! ## Catalogs -/

namespace Catalog

/-- The pending positions are those of the schemas that wait, each once, and only lists
carry templates. -/
structure Prepared (catalog : Catalog) : Prop where
  once : catalog.pending.Nodup
  waiting (position : Nat) :
    position ∈ catalog.pending ↔ catalog.isPendingAt position = true
  templates : ∀ schema ∈ catalog.schemas, ∀ field ∈ schema.fields,
    field.templatesOnLists = true

/-- An indexed catalog lists its waiting schemas as it should. -/
theorem Indexed.prepared {catalog : Catalog} (indexed : catalog.Indexed)
    (templates : ∀ schema ∈ catalog.schemas, ∀ field ∈ schema.fields,
      field.templatesOnLists = true) : catalog.Prepared := by
  constructor
  · rw [indexed.waiting]
    exact List.nodup_range.filter _
  · intro position
    rw [isPendingAt_iff]
    exact indexed.mem_pending_iff
  · exact templates

/-- The catalogs differ in that some waiting fields have settled, and in what is pending
because of that. -/
structure OnlySettles (before after : Catalog) : Prop where
  names : after.names = before.names
  enumTables : after.enumTables = before.enumTables
  pending : after.pending = before.pending.filter after.isPendingAt
  schemas : List.Forall₂ (Schema.Follows Field.KeptOrSettled) before.schemas after.schemas

namespace OnlySettles

variable {before between after : Catalog}

theorem refl (prepared : before.Prepared) : OnlySettles before before := by
  constructor
  · rfl
  · rfl
  · symm
    rw [List.filter_eq_self]
    intro position member
    exact (prepared.waiting position).mp member
  · apply List.forall₂_same.mpr
    intro schema _
    exact .refl Field.KeptOrSettled.same schema

theorem isPendingAt (settles : OnlySettles before after) {position : Nat}
    (waiting : after.isPendingAt position = true) : before.isPendingAt position = true := by
  rw [isPendingAt_iff] at waiting ⊢
  rcases waiting with ⟨reached, found, pending⟩
  rcases exists_getElem?_of_forall₂ settles.schemas.flip found with ⟨schema, here, follows⟩
  exact ⟨schema, here, follows.isPending pending⟩

theorem trans (first : OnlySettles before between) (second : OnlySettles between after) :
    OnlySettles before after := by
  constructor
  · exact second.names.trans first.names
  · exact second.enumTables.trans first.enumTables
  · rw [second.pending, first.pending, List.filter_filter]
    apply List.filter_congr
    intro position _
    rw [Bool.and_eq_left_iff_imp]
    exact second.isPendingAt
  · exact forall₂_trans first.schemas second.schemas fun here next =>
      here.trans next fun one two => one.trans two

/-- A catalog stays prepared while its fields settle. -/
theorem prepared (settles : OnlySettles before after) (prepared : before.Prepared) :
    after.Prepared := by
  constructor
  · rw [settles.pending]
    exact prepared.once.filter _
  · intro position
    rw [settles.pending, List.mem_filter, prepared.waiting, and_iff_right_iff_imp]
    exact settles.isPendingAt
  · intro reached member field present
    rcases exists_mem_of_forall₂ settles.schemas member with ⟨schema, known, follows⟩
    rcases exists_mem_of_forall₂ follows.fields present with ⟨old, here, kept⟩
    rw [← Field.templatesOnLists_outline, kept.outline_eq, Field.templatesOnLists_outline]
    exact prepared.templates schema known old here

/-- Every schema keeps its index of fields. -/
theorem indices (settles : OnlySettles before after) :
    after.schemas.map (·.index) = before.schemas.map (·.index) := by
  rw [← List.forall₂_eq_eq_eq, List.forall₂_map_left_iff, List.forall₂_map_right_iff]
  exact settles.schemas.flip.imp fun _ _ follows => follows.index

end OnlySettles

/-- A pass over a prepared catalog settles fields and does nothing else. -/
theorem Prepared.placeAll {catalog : Catalog} (prepared : catalog.Prepared)
    {settlements : List Settlement}
    (fit : ∀ settlement ∈ settlements, settlement.Fits catalog) :
    OnlySettles catalog (catalog.placeAll settlements) := by
  have passes := Passes.placeAll fit
  constructor
  · exact passes.names
  · exact passes.enumTables
  · rw [← pending_foldl_place catalog settlements]
    rfl
  · have known := (List.forall₂_and_left _ _).mpr ⟨prepared.templates, passes.schemas⟩
    apply known.imp
    rintro schema reached ⟨templates, follows⟩
    apply (follows.relying templates).mono
    rintro first second ⟨onLists, advances⟩
    exact .of_advances onLists advances

end Catalog

end Tabula
