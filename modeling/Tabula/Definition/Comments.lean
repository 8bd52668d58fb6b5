/-!
# Comments

A document may hold comments to the end of the line and comments between two marks.
Removing them keeps every line end, so that what is left stands on the line where it
stood.  A mark inside a quoted text starts no comment.
-/

namespace Tabula.Comments

/-- Where a character of the document stands. -/
inductive Mode where
  /-- Outside quoted texts and comments. -/
  | plain
  | quoted
  /-- In a comment that ends with the line. -/
  | line
  /-- In a comment between marks, perhaps right after a star. -/
  | block (afterStar : Bool)
  deriving DecidableEq

/-- The document from here on without its comments. -/
def stripFrom : Mode → List Char → List Char
  | _, [] => []
  | .plain, '/' :: '/' :: rest => stripFrom .line rest
  | .plain, '/' :: '*' :: rest => stripFrom (.block false) rest
  | .plain, c :: rest => c :: stripFrom (if c = '"' then .quoted else .plain) rest
  | .quoted, '\\' :: c :: rest => '\\' :: c :: stripFrom .quoted rest
  | .quoted, c :: rest => c :: stripFrom (if c = '"' then .plain else .quoted) rest
  | .line, c :: rest =>
    if c = '\n' then '\n' :: stripFrom .plain rest else stripFrom .line rest
  | .block afterStar, c :: rest =>
    if afterStar && c = '/' then stripFrom .plain rest
    else if c = '\n' then '\n' :: stripFrom (.block false) rest
    else stripFrom (.block (c = '*')) rest

/-- The document without its comments. -/
def strip (source : String) : String :=
  String.ofList (stripFrom .plain source.toList)

@[simp]
theorem stripFrom_nil (mode : Mode) : stripFrom mode [] = [] := by
  cases mode <;> rfl

end Tabula.Comments
