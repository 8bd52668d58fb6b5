import Tabula.Proofs.Number.Widening
import Tabula.Proofs.Value.Narrowing
import Tabula.Value.Json

/-!
# Values read back from documents

A document forgets the kind of a value and gives it back in the widest kind of its sort.
A finite value loses nothing on the way: coerced to the kind that it had, what was read is
the value again.
-/

namespace Tabula

namespace Value

/-- Every value but an infinite real and a real that is no number. -/
def isFinite : Value → Bool
  | real _ number => number.isFinite
  | _ => true

/-- A finite real of 64 bits goes back to the 32 bits that it came from. -/
theorem convert_widened_real {number : Floating .single} (isFinite : number.isFinite = true) :
    (real .bits64 (number.convert .double)).convert (.real .bits32) =
      .ok (real .bits32 number) := by
  have inside := Floating.exceeds_convert_widen Format.single_within_double number
  have back := Floating.convert_convert Format.single_within_double isFinite
  calc
    _ = ofReal .bits32 (number.convert .double) := rfl
    _ = .ok (real .bits32 ((number.convert .double).convert .single)) := by
      rw [ofReal, if_neg (Bool.eq_false_iff.mp inside)]
    _ = .ok (real .bits32 number) := by rw [back]

theorem ofJson_ofFinite {number : Floating .double} (finite : number.isFinite = true) :
    ofJson (toJson.ofFinite number) = .ok (some (real .bits64 number)) := by
  rw [toJson.ofFinite, if_pos finite]
  rfl

/-- A finite value is read back as a value that becomes the same again in its kind. -/
theorem exists_ofJson_toJson {value : Value} (finite : value.isFinite = true) :
    ∃ read, ofJson value.toJson = .ok (some read) ∧ read.convert value.kind = .ok value := by
  cases value with
  | boolean bit => exact ⟨_, rfl, convert_self _⟩
  | integer width number =>
      have long : Whole.ofInt? .bits64 number.value = some number.widen :=
        Whole.ofInt?_eq_some_iff.mpr rfl
      refine ⟨_, ?_, convert_widen width number⟩
      simp only [toJson, ofJson, long]
  | real width number =>
      cases width with
      | bits32 =>
          have widened := Floating.isFinite_convert_widen Format.single_within_double number
          exact ⟨_, ofJson_ofFinite (widened.trans finite), convert_widened_real finite⟩
      | bits64 => exact ⟨_, ofJson_ofFinite finite, convert_self _⟩
  | text content => exact ⟨_, rfl, convert_self _⟩

end Value

end Tabula
