import Tabula.Linkage.LookupChain
import Tabula.Proofs.Field.Settling

/-!
# Where a chain of lookups ends

A field of a table leads to a scalar kind when it has that kind, or when it is a lookup
and the key field that it refers to leads there.  Following a chain finds the kind that
the chain leads to, and a settled lookup carries the kinds at the ends of its two
chains.
-/

namespace Tabula

namespace Linkage

/-- The chain of lookups that starts at a field of a table ends at a scalar kind. -/
inductive LeadsTo (linkage : Linkage) : String → String → ScalarKind → Prop where
  | scalar {table field : String} {schema : Schema} {target : Field} {kind : ScalarKind}
      {reference : Option Reference} (schemaFound : linkage.rowSchema? table = some schema)
      (fieldFound : schema.field? field = some target)
      (shape : target.head.shape = .scalar kind reference) : LeadsTo linkage table field kind
  | lookup {table field : String} {schema : Schema} {target : Field} {reference : Reference}
      {kind : ScalarKind} (schemaFound : linkage.rowSchema? table = some schema)
      (fieldFound : schema.field? field = some target)
      (shape : target.head.shape = .lookup (some reference))
      (further : LeadsTo linkage reference.table reference.keyField kind) :
      LeadsTo linkage table field kind

/-- A chain has one end. -/
theorem LeadsTo.unique {linkage : Linkage} {table field : String} {kind other : ScalarKind}
    (first : LeadsTo linkage table field kind) (second : LeadsTo linkage table field other) :
    kind = other := by
  induction first with
  | scalar schemaFound fieldFound shape =>
      cases second with
      | scalar otherSchema otherField otherShape =>
          cases schemaFound.symm.trans otherSchema
          cases fieldFound.symm.trans otherField
          cases shape.symm.trans otherShape
          rfl
      | lookup otherSchema otherField otherShape _ =>
          cases schemaFound.symm.trans otherSchema
          cases fieldFound.symm.trans otherField
          cases shape.symm.trans otherShape
  | lookup schemaFound fieldFound shape _ inductionHypothesis =>
      cases second with
      | scalar otherSchema otherField otherShape =>
          cases schemaFound.symm.trans otherSchema
          cases fieldFound.symm.trans otherField
          cases shape.symm.trans otherShape
      | lookup otherSchema otherField otherShape otherFurther =>
          cases schemaFound.symm.trans otherSchema
          cases fieldFound.symm.trans otherField
          cases shape.symm.trans otherShape
          exact inductionHypothesis otherFurther

/-- The kind that following a chain gives is the one at its end. -/
theorem leadsTo_of_chainKind {linkage : Linkage} {origin table field : String}
    {unvisited : List String} {kind : ScalarKind}
    (followed : linkage.chainKind origin table field unvisited = .ok kind) :
    LeadsTo linkage table field kind := by
  fun_induction chainKind linkage origin table field unvisited with
  | case1 => cases followed
  | case2 => cases followed
  | case3 table field unvisited schema schemaFound target fieldFound found reference shape =>
      cases followed
      exact .scalar schemaFound fieldFound shape
  | case4 => cases followed
  | case5 table field unvisited schema schemaFound target fieldFound step fresh next shape
      inductionHypothesis =>
      exact .lookup schemaFound fieldFound shape (inductionHypothesis followed)
  | case6 => cases followed
  | case7 => cases followed

/-! ## Settled lookups -/

/-- A lookup settles to the kinds at the ends of its two chains. -/
theorem head_settleLookup {linkage : Linkage} {field settled : Field}
    {reference : Reference}
    (accepted : linkage.settleLookup field (some reference) = .ok settled) :
    ∃ keyKind pickedKind fallback,
      LeadsTo linkage reference.table reference.keyField keyKind ∧
      LeadsTo linkage reference.table reference.pickedField pickedKind ∧
      ConvertsFallback keyKind field.head.fallback fallback ∧
      settled.head =
        { field.head with
          shape :=
            .scalar keyKind (some { reference with pickedKind := some (.scalar pickedKind) })
          fallback } := by
  simp only [settleLookup, bind_eq_ok_iff, mapError_eq_ok_iff] at accepted
  rcases accepted with ⟨keyKind, keyFollowed, pickedKind, pickedFollowed, settling⟩
  obtain ⟨fallback, converts, same⟩ := Field.head_settleLookup settling
  exact ⟨keyKind, pickedKind, fallback, leadsTo_of_chainKind keyFollowed,
    leadsTo_of_chainKind pickedFollowed, converts, same⟩

/-! ## Refused lookups -/

/-- The refusals of lookups: something on a chain is missing or holds no single value, or the
fallback does not become a value of the kind of the key. -/
inductive RefusesLookup : LinkError → Prop where
  | unresolved (field typeText : String) : RefusesLookup (.unresolved field typeText)
  | schemaNotFound (schema field : String) : RefusesLookup (.schemaNotFound schema field)
  | fieldNotFound (schema field : String) : RefusesLookup (.fieldNotFound schema field)
  | nonScalarLookup (field table target : String) (kind : Kind) :
      RefusesLookup (.nonScalarLookup field table target kind)
  | invalidFallback (field literal : String) (cause : ValueError) :
      RefusesLookup (.refusedSchema (.invalidFallback field literal cause))

theorem refusesLookup_of_chainKind {linkage : Linkage} {origin table field : String}
    {unvisited : List String} {refusal : LinkError}
    (refused : linkage.chainKind origin table field unvisited = .error refusal) :
    RefusesLookup refusal := by
  fun_induction chainKind linkage origin table field unvisited with
  | case1 => cases refused; exact .schemaNotFound _ _
  | case2 => cases refused; exact .fieldNotFound _ _
  | case3 => cases refused
  | case4 => cases refused; exact .nonScalarLookup _ _ _ _
  | case5 _ _ _ _ _ _ _ _ _ _ _ inductionHypothesis => exact inductionHypothesis refused
  | case6 => cases refused; exact .nonScalarLookup _ _ _ _
  | case7 => cases refused; exact .nonScalarLookup _ _ _ _

theorem refusesLookup_of_settleLookup {linkage : Linkage} {field : Field}
    {reference : Option Reference} {refusal : LinkError}
    (refused : linkage.settleLookup field reference = .error refusal) :
    RefusesLookup refusal := by
  cases reference with
  | none =>
      cases refused
      exact .unresolved _ _
  | some reference =>
      simp only [settleLookup, bind_eq_error_iff, mapError_eq_error_iff] at refused
      rcases refused with key | ⟨_, _, picked | ⟨_, _, _, _, rfl⟩⟩
      · exact refusesLookup_of_chainKind key
      · exact refusesLookup_of_chainKind picked
      · exact .invalidFallback _ _ _

end Linkage

end Tabula
