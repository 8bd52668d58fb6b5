import Tabula.Text.CodeRange

/-!
# Blanks and trimming

Blanks are the white-space characters of all scripts.  Trimming removes them from the
ends of a text and nowhere else.
-/

namespace Tabula.Text

/-- The white-space characters, as ranges of code points. -/
def blankRanges : List (Nat × Nat) :=
  [ (0x9, 0xD), (0x20, 0x20), (0x85, 0x85), (0xA0, 0xA0),
    (0x1680, 0x1680), (0x2000, 0x200A), (0x2028, 0x2029), (0x202F, 0x202F),
    (0x205F, 0x205F), (0x3000, 0x3000)]

/-- The character is white space. -/
def isBlank (c : Char) : Bool :=
  inRanges c.toNat blankRanges

/-- The text without its leading blanks. -/
def trimStart (cs : List Char) : List Char :=
  cs.dropWhile isBlank

/-- The text without its trailing blanks. -/
def trimEnd (cs : List Char) : List Char :=
  (trimStart cs.reverse).reverse

/-- The text without the blanks at its ends. -/
def trim (cs : List Char) : List Char :=
  trimEnd (trimStart cs)

/-- The string without the blanks at its ends. -/
def trimText (text : String) : String :=
  String.ofList (trim text.toList)

theorem trimStart_cons (c : Char) (cs : List Char) :
    trimStart (c :: cs) = if isBlank c then trimStart cs else c :: cs := by
  cases blank : isBlank c <;> simp [trimStart, blank]

/-- Trimming a second time changes nothing. -/
@[simp]
theorem trimStart_trimStart (cs : List Char) : trimStart (trimStart cs) = trimStart cs := by
  induction cs with
  | nil => rfl
  | cons c cs inductionHypothesis =>
      rw [trimStart_cons]
      split
      · exact inductionHypothesis
      · rename_i solid
        rw [trimStart_cons, if_neg solid]

/-- A text is its leading blanks followed by the rest. -/
theorem takeWhile_append_trimStart (cs : List Char) :
    cs.takeWhile isBlank ++ trimStart cs = cs :=
  List.takeWhile_append_dropWhile

end Tabula.Text
