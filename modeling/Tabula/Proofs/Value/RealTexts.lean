import Tabula.Proofs.Number.SingleTexts
import Tabula.Value.Coercion

/-!
# Reals through their texts

The text of a real names the shortest decimal that its own format rounds to it.  A real of 64
bits is read back from it in the same format, so none is lost.  A real of 32 bits is read in
64 bits, compared with the largest real of 32 bits and narrowed; two sizes do not come through.
The largest real is refused, because its decimal lies beyond it, and one small real becomes
its neighbour, because its decimal is taken for the middle between the two.
-/

namespace Tabula

namespace Value

open Floating

/-- What a real of 32 bits becomes when its text is read as a real of 32 bits. -/
def rereadSingle : Floating .single → Except ValueError Value
  | .finite negative units fits =>
    if units = Format.single.largest then
      .error (.outOfRange (Text.plainText (largestSingle negative)) (.real .bits32))
    else if units = misread then .ok (real .bits32 (misreadAs negative))
    else .ok (real .bits32 (.finite negative units fits))
  | number => .ok (real .bits32 number.foldNan)

/-- What a real becomes when its text is read as a real of the same width; NaNs count as one. -/
def reread : (width : RealWidth) → Floating width.format → Except ValueError Value
  | .bits32, number => rereadSingle number
  | .bits64, number => .ok (real .bits64 number.foldNan)

/-- A text that is read as a real of 64 bits is taken to a real width from there. -/
theorem convert_text_real {content : String} {width : RealWidth} {wide : Floating .double}
    (read : Text.floating? .double (Text.trim content.toList) = some wide) :
    (text content).convert (.real width) = ofReal width wide := by
  have other : (text content).kind ≠ .real width := by
    rw [kind_text]
    exact ScalarKind.noConfusion
  rw [convert, if_neg other]
  simp only [toReal, read]
  rfl

theorem ofReal_of_exceeds {wide : Floating .double} (exceeds : wide.exceeds .single = true) :
    ofReal .bits32 wide = .error (.outOfRange (Text.plainText wide) (.real .bits32)) := by
  rw [ofReal]
  exact if_pos exceeds

theorem ofReal_of_not_exceeds {wide : Floating .double} (within : wide.exceeds .single = false) :
    ofReal .bits32 wide = .ok (real .bits32 (wide.convert .single)) := by
  rw [ofReal, within]
  rfl

/-- A real of 32 bits comes through its text unless it is one of the two that do not. -/
theorem convert_plainText_single (number : Floating .single) :
    (text (Text.plainText number)).convert (.real .bits32) = rereadSingle number := by
  by_cases largest : number.units = Format.single.largest
  · obtain ⟨negative, rfl⟩ := exists_eq_largestSingle largest
    obtain ⟨wide, read, exceeds, same⟩ := floating?_largestSingle negative
    rw [convert_text_real read, ofReal_of_exceeds exceeds, same]
    rfl
  by_cases lost : number.units = misread
  · obtain ⟨negative, rfl⟩ := exists_eq_misreadSingle lost
    obtain ⟨wide, read, within, narrowed⟩ := floating?_misreadSingle negative
    rw [convert_text_real read, ofReal_of_not_exceeds within, narrowed]
    rfl
  · obtain ⟨wide, read, within, narrowed⟩ := exists_floating?_double number largest lost
    rw [convert_text_real read, ofReal_of_not_exceeds within, narrowed]
    cases number with
    | nan negative bits unordered => rfl
    | infinite negative => rfl
    | finite negative units fits =>
        have notLargest : units ≠ Format.single.largest := largest
        have notLost : units ≠ misread := lost
        rw [rereadSingle, if_neg notLargest, if_neg notLost]
        rfl

/-- Every real has a text, and a real of 64 bits is read back from its text.  So is a real of
32 bits, save for the largest one, which is refused as out of range, and one other, which is
read as its neighbour. -/
theorem reals_through_their_texts (width : RealWidth) (number : Floating width.format) :
    (real width number).coerce (.scalar .text) = .ok (text (Text.plainText number)) ∧
      (text (Text.plainText number)).coerce (.scalar (.real width)) = reread width number := by
  refine ⟨convert_text (real width number), ?_⟩
  cases width with
  | bits32 => exact convert_plainText_single number
  | bits64 =>
      rw [coerce_scalar, convert_text_real (floating?_plainText (by decide) number)]
      rfl

/-- The largest real of 32 bits is refused by its own kind once it is a text, and a small one
comes back as its neighbour. -/
theorem two_reals_are_lost :
    (real .bits32 (largestSingle false)).coerce (.scalar .text) =
        .ok (text "340282350000000000000000000000000000000") ∧
      (text "340282350000000000000000000000000000000").coerce (.scalar (.real .bits32)) =
        .error (.outOfRange "340282350000000000000000000000000000000" (.real .bits32)) ∧
      (real .bits32 (misreadSingle false)).coerce (.scalar .text) =
        .ok (text "0.00000000000000000000000007038531") ∧
      (text "0.00000000000000000000000007038531").coerce (.scalar (.real .bits32)) =
        .ok (real .bits32 (misreadAs false)) ∧
      misreadAs false ≠ misreadSingle false := by
  have large : Text.plainText (largestSingle false) =
      "340282350000000000000000000000000000000" := by
    decide +kernel
  have small : Text.plainText (misreadSingle false) = "0.00000000000000000000000007038531" := by
    decide +kernel
  rw [← large, ← small]
  exact ⟨convert_text (real .bits32 (largestSingle false)),
    convert_plainText_single (largestSingle false),
    convert_text (real .bits32 (misreadSingle false)),
    convert_plainText_single (misreadSingle false), by decide⟩

end Value

end Tabula
