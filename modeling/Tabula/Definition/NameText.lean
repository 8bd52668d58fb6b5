import Tabula.Definition.Error
import Tabula.Text.Blank
import Tabula.Text.Word

/-!
# Names in definitions

The name of a schema, a field or an enum is a basic Latin letter followed by word
characters.  The name of a partial table may also hold blanks and slashes after its
first letter.
-/

namespace Tabula

namespace Text

/-- The name at the start of a text and what follows it. -/
def takeName? (source : List Char) : Option (List Char × List Char) :=
  match source with
  | [] => none
  | c :: rest =>
    if isNameStart c then some (c :: rest.takeWhile isWord, rest.dropWhile isWord) else none

/-- The text is a name. -/
def isName (source : List Char) : Bool :=
  match source with
  | [] => false
  | c :: rest => isNameStart c && rest.all isWord

/-- The text is the name of a partial table. -/
def isPartialName (source : List Char) : Bool :=
  match source with
  | [] => false
  | c :: rest => isNameStart c && rest.all fun c => isWord c || isBlank c || c = '/'

/-- A name and what follows it make up the text again. -/
theorem append_of_takeName? {source name rest : List Char}
    (taken : takeName? source = some (name, rest)) : name ++ rest = source := by
  cases source with
  | nil => simp [takeName?] at taken
  | cons c source =>
      simp only [takeName?] at taken
      split at taken
      · simp only [Option.some.injEq, Prod.mk.injEq] at taken
        obtain ⟨rfl, rfl⟩ := taken
        simp
      · simp at taken

end Text

namespace Definition

/-- The name fits its role. -/
def checkName (name role : String) : Except DefinitionError Unit :=
  if Text.isName name.toList then .ok () else .error (.disallowedName name role)

/-- The name fits a partial table. -/
def checkPartialName (name : String) : Except DefinitionError Unit :=
  if Text.isPartialName name.toList then .ok ()
  else .error (.disallowedName name "partial name")

@[simp]
theorem checkName_eq_ok_iff (name role : String) :
    checkName name role = .ok () ↔ Text.isName name.toList = true := by
  unfold checkName
  split <;> simp_all

end Definition

end Tabula
