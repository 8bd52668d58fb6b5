import Tabula.Value.Error

/-!
# Refused rows

The ways in which a table refuses a row or another table.
-/

namespace Tabula

/-- Why a table refuses rows. -/
inductive TableError where
  /-- A cell does not become a value of its column's kind. -/
  | coercion (table column : String) (refusal : ValueError)
  /-- A cell is empty in a column that has to be filled. -/
  | nullNotAllowed (table column : String)
  /-- A unique column already holds an equal value. -/
  | uniqueViolation (table column shown : String)
  /-- The schemas of two tables differ in structure. -/
  | incompatible (table other : String)
  deriving DecidableEq

/-- The wording of a refusal. -/
def TableError.message : TableError → String
  | coercion table column refusal =>
    let cause := refusal.message
    s!"column '{column}' of table '{table}': {cause}"
  | nullNotAllowed table column =>
    s!"column '{column}' of table '{table}' does not accept null"
  | uniqueViolation table column shown =>
    s!"duplicate value '{shown}' in unique column '{column}' of table '{table}'"
  | incompatible table other =>
    s!"table '{other}' is not compatible with table '{table}'"

end Tabula
