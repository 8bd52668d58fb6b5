import Tabula.Proofs.Number.WholeText
import Tabula.Proofs.Outcome
import Tabula.Proofs.Text.Words
import Tabula.Value.Coercion

/-!
# Whole numbers through chains of kinds

A whole number can go from one integer kind to another, become a text and be read back, in
any order and any number of times.  All of its forms stand for the same integer, and what a
form becomes in a kind depends on that integer alone.  So a chain of kinds leads to the same
value as its last kind does at once, and it breaks only at an integer kind whose range leaves
the integer out.
-/

namespace Tabula

/-- A kind in which whole numbers are kept exactly: an integer kind, or text. -/
inductive WholeKind where
  | integer (width : IntegerWidth)
  | text
  deriving DecidableEq

namespace WholeKind

/-- The kind as a kind of fields. -/
def kind : WholeKind → Kind
  | integer width => .scalar (.integer width)
  | text => .scalar .text

/-- The integer lies in the range of the kind. -/
def Holds (number : Int) : WholeKind → Prop
  | integer width => width.minimum ≤ number ∧ number ≤ width.maximum
  | text => True

instance (number : Int) : DecidablePred (Holds number)
  | integer width => inferInstanceAs (Decidable (width.minimum ≤ number ∧ number ≤ width.maximum))
  | text => inferInstanceAs (Decidable True)

end WholeKind

namespace Text

/-- The text of an integer holds no blank. -/
theorem trim_integerText (number : Int) :
    trim (integerText number).toList = (integerText number).toList := by
  have digits : ∀ c ∈ naturalDigits number.natAbs, isBlank c = false := fun _ member =>
    isBlank_of_isWord (isWord_of_isDigit (isDigit_of_mem_naturalDigits member))
  rw [integerText, String.toList_ofList]
  split
  · have solid : ∀ c ∈ '-' :: naturalDigits number.natAbs, isBlank c = false :=
      List.forall_mem_cons.mpr ⟨by decide, digits⟩
    exact (solid_of_forall (List.cons_ne_nil _ _) solid).trim_eq
  · exact (solid_of_forall (naturalDigits_ne_nil _) digits).trim_eq

end Text

namespace Value

/-- Coerces a value to one kind after the other. -/
def coerceAll (value : Value) (kinds : List Kind) : Except ValueError Value :=
  kinds.foldlM coerce value

/-- The value is a form of the number: an integer of any width, or the number's text. -/
inductive Shows (number : Long) : Value → Prop where
  | integer {width : IntegerWidth} (fitting : Whole width)
      (same : fitting.value = number.value) : Shows number (.integer width fitting)
  | text : Shows number (.text (Text.integerText number.value))

/-- The form of a number in a kind, if the kind has room for it. -/
def form (number : Long) : WholeKind → Except ValueError Value
  | .integer width => ofLong width number
  | .text => .ok (.text (Text.integerText number.value))

theorem ofLong_eq_ok {width : IntegerWidth} {number : Long} {fitting : Whole width}
    (same : fitting.value = number.value) : ofLong width number = .ok (.integer width fitting) := by
  have fits : Whole.ofInt? width number.value = some fitting := Whole.ofInt?_eq_some_iff.mpr same
  simp only [ofLong, fits]

/-- A number has a form in every kind that holds it. -/
theorem exists_form {number : Long} {kind : WholeKind} (holds : kind.Holds number.value) :
    ∃ value, form number kind = .ok value := by
  cases kind with
  | integer width =>
      obtain ⟨above, below⟩ := holds
      let fitting : Whole width := ⟨number.value, above, below⟩
      have same : fitting.value = number.value := rfl
      exact ⟨_, ofLong_eq_ok same⟩
  | text => exact ⟨_, rfl⟩

/-- A form of a number stands for the number, and is in the kind's range. -/
theorem shows_of_form {number : Long} {kind : WholeKind} {value : Value}
    (formed : form number kind = .ok value) : kind.Holds number.value ∧ Shows number value := by
  cases kind with
  | text =>
      cases formed
      exact ⟨trivial, .text⟩
  | integer width =>
      rw [form, ofLong] at formed
      split at formed
      · rename_i fitting found
        cases formed
        have same := Whole.ofInt?_eq_some_iff.mp found
        rw [WholeKind.Holds, ← same]
        exact ⟨⟨fitting.minimum_le, fitting.le_maximum⟩, .integer fitting same⟩
      · cases formed

/-- A number without a form in a kind is out of the range of that kind. -/
theorem outOfRange_of_form {number : Long} {kind : WholeKind} {refusal : ValueError}
    (refused : form number kind = .error refusal) : ¬kind.Holds number.value ∧
      ∃ width, kind = .integer width ∧
        refusal = .outOfRange (Text.integerText number.value) (.integer width) := by
  constructor
  · intro holds
    obtain ⟨value, formed⟩ := exists_form holds
    rw [formed] at refused
    cases refused
  · cases kind with
    | text => cases refused
    | integer width =>
        rw [form, ofLong] at refused
        split at refused
        · cases refused
        · cases refused
          exact ⟨width, rfl, rfl⟩

/-- What a form of a number becomes in a kind depends on the number alone. -/
theorem Shows.coerce {number : Long} {value : Value} (shows : Shows number value)
    (kind : WholeKind) : value.coerce kind.kind = form number kind := by
  cases shows with
  | text =>
      cases kind with
      | text => rfl
      | integer width =>
          have read : (Text.integer? (Text.trim (Text.integerText number.value).toList)).bind
              (Whole.ofInt? .bits64) = some number := by
            rw [Text.trim_integerText, Text.integer?_integerText]
            exact Whole.ofInt?_eq_some_iff.mpr rfl
          change (toLong (.text _) _ >>= ofLong width) = ofLong width number
          rw [toLong, read]
          rfl
  | @integer source fitting same =>
      cases kind with
      | text =>
          rw [WholeKind.kind, coerce_scalar, convert_text, toText, same]
          rfl
      | integer width =>
          by_cases stays : source = width
          · subst stays
            rw [form, ofLong_eq_ok same]
            exact convert_self (.integer source fitting)
          · have widened : fitting.widen = number := Whole.ext same
            have other : (Value.integer source fitting).kind ≠ .integer width := by
              rw [kind_integer, ne_eq, ScalarKind.integer.injEq]
              exact stays
            rw [WholeKind.kind, coerce_scalar, convert, if_neg other]
            simp only [toLong, widened]
            rfl

theorem coerceAll_cons (value : Value) (kind : Kind) (kinds : List Kind) :
    value.coerceAll (kind :: kinds) = value.coerce kind >>= fun next => next.coerceAll kinds :=
  List.foldlM_cons

theorem coerceAll_concat (value : Value) (kinds : List Kind) (last : Kind) :
    value.coerceAll (kinds ++ [last]) =
      value.coerceAll kinds >>= fun next => next.coerce last := by
  rw [coerceAll, List.foldlM_append]
  congr 1
  funext next
  exact bind_pure _

/-- A chain leads to a form of the number, unless it comes to a kind without room for it. -/
theorem Shows.coerceAll_cases {number : Long} {value : Value} (shows : Shows number value)
    (kinds : List WholeKind) :
    ((∀ kind ∈ kinds, kind.Holds number.value) ∧
      ∃ result, value.coerceAll (kinds.map WholeKind.kind) = .ok result ∧ Shows number result) ∨
    ∃ width, .integer width ∈ kinds ∧ ¬(WholeKind.integer width).Holds number.value ∧
      value.coerceAll (kinds.map WholeKind.kind) =
        .error (.outOfRange (Text.integerText number.value) (.integer width)) := by
  induction kinds generalizing value with
  | nil => exact .inl ⟨List.forall_mem_nil _, value, rfl, shows⟩
  | cons kind kinds inductionHypothesis =>
      rw [List.map_cons, coerceAll_cons, shows.coerce kind]
      cases formed : form number kind with
      | error refusal =>
          obtain ⟨outside, width, rfl, rfl⟩ := outOfRange_of_form formed
          exact .inr ⟨width, List.mem_cons_self, outside, rfl⟩
      | ok next =>
          obtain ⟨here, further⟩ := shows_of_form formed
          rcases inductionHypothesis further with ⟨holds, reaches⟩ | ⟨width, member, breaks⟩
          · exact .inl ⟨List.forall_mem_cons.mpr ⟨here, holds⟩, reaches⟩
          · exact .inr ⟨width, List.mem_cons_of_mem _ member, breaks⟩

/-- A whole number goes along a chain of integer kinds and text exactly when every kind of the
chain has room for it.  It then ends as what it becomes in the last kind at once, and otherwise
it is refused as out of the range of a kind of the chain. -/
theorem integer_chains_are_direct (width : IntegerWidth) (number : Whole width)
    (kinds : List WholeKind) (last : WholeKind) :
    let chain := (integer width number).coerceAll ((kinds ++ [last]).map WholeKind.kind)
    ((∃ result, chain = .ok result) ↔ ∀ kind ∈ kinds ++ [last], kind.Holds number.value) ∧
      (∀ result, chain = .ok result → (integer width number).coerce last.kind = .ok result) ∧
      ∀ refusal, chain = .error refusal → ∃ narrow, .integer narrow ∈ kinds ++ [last] ∧
        ¬(WholeKind.integer narrow).Holds number.value ∧
        refusal = .outOfRange (Text.integerText number.value) (.integer narrow) := by
  intro chain
  have shows : Shows number.widen (integer width number) := .integer number rfl
  refine ⟨?_, ?_, ?_⟩
  · rcases shows.coerceAll_cases (kinds ++ [last]) with
      ⟨holds, result, reaches, _⟩ | ⟨narrow, member, outside, breaks⟩
    · exact iff_of_true ⟨result, reaches⟩ holds
    · refine iff_of_false ?_ fun holds => outside (holds _ member)
      rintro ⟨result, reaches⟩
      cases breaks.symm.trans reaches
  · intro result reaches
    -- What stands before the last step is a form of the number, as the start is.
    have split : chain = (integer width number).coerceAll (kinds.map WholeKind.kind) >>=
        fun before => before.coerce last.kind := by
      rw [← coerceAll_concat, ← List.map_singleton, ← List.map_append]
    rw [split, bind_eq_ok_iff] at reaches
    obtain ⟨before, first, step⟩ := reaches
    rcases shows.coerceAll_cases kinds with ⟨_, form, reached, showsForm⟩ | ⟨_, _, _, breaks⟩
    · cases first.symm.trans reached
      rw [shows.coerce last, ← showsForm.coerce last]
      exact step
    · cases first.symm.trans breaks
  · intro refusal refused
    rcases shows.coerceAll_cases (kinds ++ [last]) with
      ⟨_, result, reaches, _⟩ | ⟨narrow, member, outside, breaks⟩
    · cases refused.symm.trans reaches
    · cases refused.symm.trans breaks
      exact ⟨narrow, member, outside, rfl⟩

end Value

end Tabula
