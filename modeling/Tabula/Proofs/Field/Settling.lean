import Tabula.Field.Fallback
import Tabula.Proofs.Outcome

/-!
# What settling does to a field

Settling turns the head that waits into one that waits no more, and puts the fallback to
the test of the new kind.  Fallbacks never touch the shapes along the chain of a field,
so whether a field waits and how many of its heads do can be read from the shapes alone.
A settled field never waits again: what settling does to it happens once.
-/

namespace Tabula

/-- What a fallback becomes in a scalar field. -/
inductive ConvertsFallback (kind : ScalarKind) : Option Value → Option Value → Prop where
  | absent : ConvertsFallback kind none none
  | present {value converted : Value} (accepted : value.convert kind = .ok converted) :
      ConvertsFallback kind (some value) (some converted)

/-- Only lists have the kind of lists. -/
theorem Shape.exists_list_of_kind {shape : Shape} (list : shape.kind = .list) :
    ∃ count, shape = .list count := by
  cases shape with
  | list count => exact ⟨count, rfl⟩
  | scalar => cases list
  | embedded => cases list
  | lookup => cases list
  | unresolved => cases list

/-- A shape of a scalar kind may have a reference, and nothing else. -/
theorem Shape.exists_scalar_of_kind {shape : Shape} {kind : ScalarKind}
    (scalar : shape.kind = .scalar kind) : ∃ reference, shape = .scalar kind reference := by
  cases shape with
  | scalar inner reference =>
      cases scalar
      exact ⟨reference, rfl⟩
  | list => cases scalar
  | embedded => cases scalar
  | lookup => cases scalar
  | unresolved => cases scalar

/-- A shape of the kind of lookups may have a reference, and nothing else. -/
theorem Shape.exists_lookup_of_kind {shape : Shape} (lookup : shape.kind = .lookup) :
    ∃ reference, shape = .lookup reference := by
  cases shape with
  | lookup reference => exact ⟨reference, rfl⟩
  | scalar => cases lookup
  | list => cases lookup
  | embedded => cases lookup
  | unresolved => cases lookup

namespace Field

/-! ## Shapes along the chain -/

/-- The shapes of the heads along the chain. -/
def shapes : Field → List Shape
  | single head => [head.shape]
  | withElement head element => head.shape :: element.shapes

/-- The first head that is no list waits for a definition or a key field. -/
def waits : Field → Bool
  | single head => head.shape.kind.isPending
  | withElement head element =>
    match head.shape with
    | .list _ => element.waits
    | shape => shape.kind.isPending

theorem shapes_eq_cons (field : Field) :
    field.shapes = field.head.shape :: field.shapes.tail := by
  cases field <;> rfl

theorem shapes_mapHead (change : FieldHead → FieldHead) (field : Field) :
    (field.mapHead change).shapes = (change field.head).shape :: field.shapes.tail := by
  cases field <;> rfl

/-- The waiting heads are those of pending shapes. -/
theorem pendingCount_eq_countP (field : Field) :
    field.pendingCount = field.shapes.countP (·.kind.isPending) := by
  induction field with
  | single head => simp [pendingCount, shapes, List.countP_cons]
  | withElement head element inductionHypothesis =>
      rw [pendingCount, shapes, List.countP_cons, inductionHypothesis, Nat.add_comm]

/-- Outside lists it is the first head that waits or does not. -/
theorem waits_of_kind {field : Field} (notList : field.kind ≠ .list) :
    field.waits = field.kind.isPending := by
  cases field with
  | single head => rfl
  | withElement head element =>
      unfold waits
      split
      · rename_i count shape
        exact absurd (congrArg Shape.kind shape) notList
      · rfl

/-- Whether a field waits shows in its shapes. -/
theorem waits_eq_of_shapes_eq {left right : Field} (same : left.shapes = right.shapes) :
    left.waits = right.waits := by
  induction left generalizing right with
  | single head =>
      cases right with
      | single other =>
          have shape : head.shape = other.shape := by simpa [shapes] using same
          simp [waits, shape]
      | withElement other element =>
          rw [shapes, shapes, List.cons.injEq, shapes_eq_cons element] at same
          cases same.2
  | withElement head element inductionHypothesis =>
      cases right with
      | single other =>
          rw [shapes, shapes, List.cons.injEq, shapes_eq_cons element] at same
          cases same.2
      | withElement other below =>
          rw [shapes, shapes, List.cons.injEq] at same
          rw [waits, waits, same.1, inductionHypothesis same.2]

/-- A field that waits has a head that does. -/
theorem isPending_of_waits {field : Field} (waiting : field.waits = true) :
    field.isPending = true := by
  induction field with
  | single head => exact waiting
  | withElement head element inductionHypothesis =>
      rw [isPending, Bool.or_eq_true]
      unfold waits at waiting
      split at waiting
      · exact Or.inr (inductionHypothesis waiting)
      · exact Or.inl waiting

/-! ## Fallbacks change nothing else -/

theorem clearFallback_clearFallback (field : Field) :
    field.clearFallback.clearFallback = field.clearFallback := by
  induction field with
  | single head => rfl
  | withElement head element inductionHypothesis =>
      rw [clearFallback, clearFallback, inductionHypothesis]
      rfl

/-- Fields with and without a fallback differ in nothing but fallbacks. -/
theorem clearFallback_setFallback {field result : Field} {value : Value}
    (accepted : field.setFallback value = .ok result) :
    result.clearFallback = field.clearFallback := by
  induction field generalizing result with
  | single head =>
      simp only [setFallback, bind_eq_ok_iff, pure_eq_ok_iff] at accepted
      rcases accepted with ⟨fallback, _, rfl⟩
      rfl
  | withElement head element inductionHypothesis =>
      unfold setFallback at accepted
      split at accepted
      · simp only [bind_eq_ok_iff, pure_eq_ok_iff] at accepted
        rcases accepted with ⟨below, handed, rfl⟩
        rw [clearFallback, clearFallback, inductionHypothesis handed]
        rfl
      · simp only [bind_eq_ok_iff, pure_eq_ok_iff] at accepted
        rcases accepted with ⟨fallback, _, rfl⟩
        rfl

theorem clearFallback_assignFallback {field result : Field} {fallback : Option Value}
    (accepted : field.assignFallback fallback = .ok result) :
    result.clearFallback = field.clearFallback := by
  cases fallback with
  | none =>
      cases accepted
      exact clearFallback_clearFallback field
  | some value => exact clearFallback_setFallback accepted

theorem shapes_clearFallback (field : Field) : field.clearFallback.shapes = field.shapes := by
  induction field with
  | single head => rfl
  | withElement head element inductionHypothesis =>
      rw [clearFallback, shapes, shapes, inductionHypothesis]
      rfl

theorem shapes_setFallback {field result : Field} {value : Value}
    (accepted : field.setFallback value = .ok result) : result.shapes = field.shapes := by
  rw [← shapes_clearFallback, clearFallback_setFallback accepted, shapes_clearFallback]

theorem shapes_assignFallback {field result : Field} {fallback : Option Value}
    (accepted : field.assignFallback fallback = .ok result) :
    result.shapes = field.shapes := by
  rw [← shapes_clearFallback, clearFallback_assignFallback accepted, shapes_clearFallback]

theorem shapes_setElement {field element result : Field}
    (accepted : field.setElement element = .ok result) :
    result.head = field.head ∧ result.shapes = field.head.shape :: element.shapes := by
  unfold setElement at accepted
  split at accepted
  · cases accepted
    exact ⟨rfl, rfl⟩
  · simp only [bind_eq_ok_iff, pure_eq_ok_iff] at accepted
    rcases accepted with ⟨below, handed, rfl⟩
    constructor
    · rfl
    · rw [shapes, shapes_setFallback handed]

/-! ## Settled lookups -/

/-- Settling a lookup replaces its shape, converts its fallback and leaves the rest of
its head alone. -/
theorem head_settleLookup {field settled : Field} {reference : Reference}
    {kind : ScalarKind} (accepted : field.settleLookup reference kind = .ok settled) :
    ∃ fallback, ConvertsFallback kind field.head.fallback fallback ∧
      settled.head =
        { field.head with shape := .scalar kind (some reference), fallback } := by
  unfold settleLookup at accepted
  cases present : field.head.fallback with
  | none =>
      rw [present] at accepted
      cases accepted
      refine ⟨none, .absent, ?_⟩
      cases field <;> rfl
  | some value =>
      rw [present] at accepted
      cases field with
      | single head =>
          simp only [mapHead, assignFallback, setFallback, shapedFallback, bind_eq_ok_iff,
            map_eq_ok_iff, pure_eq_ok_iff] at accepted
          rcases accepted with ⟨_, ⟨converted, here, rfl⟩, rfl⟩
          exact ⟨some converted, .present here, rfl⟩
      | withElement head element =>
          simp only [mapHead, assignFallback, setFallback, shapedFallback, bind_eq_ok_iff,
            map_eq_ok_iff, pure_eq_ok_iff] at accepted
          rcases accepted with ⟨_, ⟨converted, here, rfl⟩, rfl⟩
          exact ⟨some converted, .present here, rfl⟩

/-- A lookup whose reference is known settles when its fallback, if it has one, becomes a
value of the kind of the key. -/
theorem exists_settleLookup_iff {field : Field} {reference : Reference} {kind : ScalarKind} :
    (∃ settled, field.settleLookup reference kind = .ok settled) ↔
      ∃ fallback, ConvertsFallback kind field.head.fallback fallback := by
  constructor
  · rintro ⟨settled, accepted⟩
    obtain ⟨fallback, converts, _⟩ := head_settleLookup accepted
    exact ⟨fallback, converts⟩
  · rintro ⟨fallback, converts⟩
    unfold settleLookup
    cases present : field.head.fallback with
    | none => exact ⟨_, rfl⟩
    | some value =>
        rw [present] at converts
        cases converts with
        | present accepted =>
            cases field with
            | single head =>
                simp [mapHead, assignFallback, setFallback, shapedFallback, accepted, Except.map]
            | withElement head element =>
                simp [mapHead, assignFallback, setFallback, shapedFallback, accepted, Except.map]

theorem shapes_settleLookup {field settled : Field} {reference : Reference}
    {kind : ScalarKind} (accepted : field.settleLookup reference kind = .ok settled) :
    settled.shapes = .scalar kind (some reference) :: field.shapes.tail := by
  rw [shapes_assignFallback accepted, shapes_mapHead]

/-! ## Settlements -/

/-- What settling does to a field, whatever it settles to. -/
structure Settles (before after : Field) : Prop where
  name : after.name = before.name
  waited : before.waits = true
  done : after.waits = false
  fewer : after.pendingCount < before.pendingCount
  kind : before.kind.isPending = true ∨ after.kind = before.kind

namespace Settles

/-- A waiting head whose shape is swapped for one that does not wait. -/
theorem of_head {before after : Field} (waiting : before.kind.isPending = true)
    (name : after.name = before.name) (shape : Shape) (notList : shape.kind ≠ .list)
    (calm : shape.kind.isPending = false)
    (swapped : after.shapes = shape :: before.shapes.tail) : Settles before after := by
  have top : after.head.shape = shape := by
    rw [shapes_eq_cons after, List.cons.injEq] at swapped
    exact swapped.1
  have kindAfter : after.kind = shape.kind := congrArg Shape.kind top
  have notListBefore : before.kind ≠ .list := by
    intro list
    rw [list] at waiting
    cases waiting
  constructor
  · exact name
  · rw [waits_of_kind notListBefore, waiting]
  · rw [waits_of_kind (kindAfter ▸ notList), kindAfter, calm]
  · rw [pendingCount_eq_countP, pendingCount_eq_countP, swapped, shapes_eq_cons before,
      List.countP_cons_of_neg (by simp [calm]), List.tail_cons,
      List.countP_cons_of_pos (by exact waiting)]
    exact Nat.lt_succ_self _
  · exact Or.inl waiting

theorem of_settleEmbedded {field : Field} (waiting : field.kind.isPending = true)
    (target : String) : Settles field (field.settleEmbedded target) := by
  refine of_head waiting ?_ (.embedded (some target)) (by simp [Shape.kind]) rfl
    (shapes_mapHead _ field)
  cases field <;> rfl

theorem of_settleLookup {field settled : Field} {reference : Reference} {kind : ScalarKind}
    (waiting : field.kind.isPending = true)
    (accepted : field.settleLookup reference kind = .ok settled) : Settles field settled := by
  obtain ⟨fallback, _, same⟩ := head_settleLookup accepted
  have name : settled.name = field.name := by
    rw [Field.name, same]
    rfl
  exact of_head waiting name (.scalar kind (some reference)) (by simp [Shape.kind]) rfl
    (shapes_settleLookup accepted)

/-- A list settles with its elements. -/
theorem of_setElement {head : FieldHead} {element settled result : Field} {count : Nat}
    (list : head.shape = .list count) (below : Settles element settled)
    (accepted : (withElement head element).setElement settled = .ok result) :
    Settles (withElement head element) result := by
  obtain ⟨sameHead, chain⟩ := shapes_setElement accepted
  have sameChain : result.shapes = (withElement head settled).shapes := chain
  constructor
  · exact congrArg FieldHead.name sameHead
  · simpa [waits, list] using below.waited
  · rw [waits_eq_of_shapes_eq sameChain]
    simpa [waits, list] using below.done
  · rw [pendingCount_eq_countP result, sameChain, ← pendingCount_eq_countP]
    exact Nat.add_lt_add_left below.fewer _
  · right
    rw [Field.kind, sameHead]
    rfl

/-- A settlement leaves no more pending than there was. -/
theorem isPending {before after : Field} (settles : Settles before after)
    (pending : after.isPending = true) : before.isPending = true := by
  rw [← pendingCount_pos_iff] at pending ⊢
  exact Nat.lt_trans pending settles.fewer

end Settles

/-- The ways in which a field settles: its head takes a shape that does not wait, or it is
a list and its elements settle. -/
inductive SettlesInto : Field → Field → Prop where
  | embedded {field : Field} (waiting : field.kind.isPending = true) (target : String) :
      SettlesInto field (field.settleEmbedded target)
  | lookup {field settled : Field} {reference : Reference} {kind : ScalarKind}
      (waiting : field.kind.isPending = true)
      (accepted : field.settleLookup reference kind = .ok settled) : SettlesInto field settled
  | element {head : FieldHead} {element settled result : Field} {count : Nat}
      (list : head.shape = .list count) (below : SettlesInto element settled)
      (accepted : (withElement head element).setElement settled = .ok result) :
      SettlesInto (withElement head element) result

theorem SettlesInto.settles {before after : Field} (into : SettlesInto before after) :
    Settles before after := by
  induction into with
  | embedded waiting target => exact .of_settleEmbedded waiting target
  | lookup waiting accepted => exact .of_settleLookup waiting accepted
  | element list _ accepted inductionHypothesis =>
      exact .of_setElement list inductionHypothesis accepted

end Field

end Tabula
