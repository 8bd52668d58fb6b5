import Tabula.Proofs.Text.Lowercase

/-!
# Whole numbers and their texts

The text of a whole number is its decimal digits behind an optional minus sign.  It is read
back as the number, because no digit is a sign.
-/

namespace Tabula.Text

theorem naturalDigits_ne_nil (number : Nat) : naturalDigits number ≠ [] := by
  unfold naturalDigits
  split
  · exact List.cons_ne_nil _ _
  · exact List.append_ne_nil_of_right_ne_nil _ (List.cons_ne_nil _ _)

theorem natural?_naturalDigits (number : Nat) : natural? (naturalDigits number) = some number := by
  have digits : (naturalDigits number).all Char.isDigit = true :=
    List.all_eq_true.mpr fun _ => isDigit_of_mem_naturalDigits
  rw [natural?, if_pos ⟨naturalDigits_ne_nil number, digits⟩, digitsValue_naturalDigits]

/-- A text of digits starts with one. -/
theorem exists_naturalDigits_cons (number : Nat) :
    ∃ c rest, naturalDigits number = c :: rest ∧ c.isDigit = true := by
  obtain ⟨c, rest, same⟩ := List.exists_cons_of_ne_nil (naturalDigits_ne_nil number)
  have first : c ∈ naturalDigits number := by
    rw [same]
    exact List.mem_cons_self
  exact ⟨c, rest, same, isDigit_of_mem_naturalDigits first⟩

/-- Digits have no sign to split off. -/
theorem splitSign_naturalDigits (number : Nat) :
    splitSign (naturalDigits number) = (false, naturalDigits number) := by
  obtain ⟨c, rest, same, digit⟩ := exists_naturalDigits_cons number
  rw [same, splitSign]
  · intro _ minus
    cases minus
    cases digit
  · intro _ plus
    cases plus
    cases digit

/-- An integer is read back from its text. -/
theorem integer?_integerText (number : Int) :
    integer? (integerText number).toList = some number := by
  rw [integerText, String.toList_ofList, integer?]
  by_cases negative : number < 0
  · have size : -(number.natAbs : Int) = number := by omega
    simp only [if_pos negative, splitSign, natural?_naturalDigits, if_true]
    exact congrArg some size
  · have size : (number.natAbs : Int) = number := by omega
    simp only [if_neg negative, splitSign_naturalDigits, natural?_naturalDigits,
      Bool.false_eq_true, if_false]
    exact congrArg some size

end Tabula.Text
