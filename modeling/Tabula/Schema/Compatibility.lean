import Tabula.Field.Compatibility
import Tabula.Schema

/-!
# Structural compatibility of schemas

Schemas are compatible when their fields are, position for position.
-/

namespace Tabula

/-- The fields are pairwise compatible and equally many. -/
def compatibleFields : List Field → List Field → Bool
  | [], [] => true
  | left :: lefts, right :: rights => left.compatible right && compatibleFields lefts rights
  | _, _ => false

/-- The fields of the schemas are compatible, position for position. -/
def Schema.compatible (left right : Schema) : Bool :=
  compatibleFields left.fields right.fields

theorem length_eq_of_compatibleFields {lefts rights : List Field}
    (agree : compatibleFields lefts rights = true) : lefts.length = rights.length := by
  induction lefts generalizing rights with
  | nil => cases rights <;> simp_all [compatibleFields]
  | cons left lefts inductionHypothesis =>
      cases rights with
      | nil => simp [compatibleFields] at agree
      | cons right rights =>
          simp only [compatibleFields, Bool.and_eq_true] at agree
          simp [inductionHypothesis agree.2]

end Tabula
