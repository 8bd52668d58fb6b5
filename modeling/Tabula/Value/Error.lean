import Tabula.Kind

/-!
# Refused values

The ways in which a value can fail to become a value of a kind.
-/

namespace Tabula

/-- Why a value is refused. -/
inductive ValueError where
  /-- The value has no counterpart in the kind. -/
  | conversion (shown : String) (source target : ScalarKind)
  /-- The value is a number beyond the kind's range. -/
  | outOfRange (shown : String) (target : ScalarKind)
  /-- The kind holds no single value. -/
  | notScalar (kind : Kind)
  /-- An array or an object has no scalar counterpart. -/
  | unsupportedDocument (shown : String)
  deriving DecidableEq

/-- The wording of a refusal. -/
def ValueError.message : ValueError → String
  | conversion shown source target =>
    s!"cannot convert '{shown}' ({source.name}) to {target.name}"
  | outOfRange shown target => s!"value {shown} is out of range for {target.name}"
  | notScalar kind => s!"{kind.name} is not a scalar kind"
  | unsupportedDocument shown => s!"unsupported JSON value: {shown}"

end Tabula
