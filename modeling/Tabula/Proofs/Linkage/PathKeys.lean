import Tabula.Proofs.Linkage.Expansion
import Tabula.Proofs.Text.Lowercase
import Tabula.Proofs.Text.Words

/-!
# Keys of paths

The key of a path can be taken apart again: every name in it ends at the next point or
bracket, and every position at its closing bracket.  A name is part of the key in one of two
forms.  In front of another name it is lowered as the first part of a word, and else as a
word of its own; the forms differ where the name ends in a capital sigma.
-/

namespace Tabula

/-- The key of a name in front of another one. -/
def NameKey.within (name : String) : NameKey :=
  .of (name ++ ".a")

/-! ## Steps -/

/-- The characters of the steps. -/
def stepsChars (steps : List PathStep) : List Char :=
  steps.flatMap (·.text.toList)

/-- All fields on the way have names. -/
def AreNamed (steps : List PathStep) : Prop :=
  ∀ name, .child name ∈ steps → Text.isName name.toList = true

/-- The way goes on to a field of an embedded schema. -/
def entersSchema : List PathStep → Bool
  | .child _ :: _ => true
  | _ => false

theorem PathStep.text_child (name : String) : (child name).text = "." ++ name :=
  rfl

theorem PathStep.toList_text_slot (position : Nat) :
    (slot position).text.toList = '[' :: (Text.naturalDigits position ++ [']']) := by
  simp [Text.naturalText]

theorem PathStep.toList_text_child (name : String) :
    (child name).text.toList = '.' :: name.toList := by
  simp [text_child]

theorem toList_pathName (root : String) (steps : List PathStep) :
    (pathName root steps).toList = root.toList ++ stepsChars steps := by
  induction steps generalizing root with
  | nil => simp [pathName, stepsChars]
  | cons step steps inductionHypothesis =>
      rw [pathName, inductionHypothesis, String.toList_append, List.append_assoc]
      rfl

theorem AreNamed.tail {step : PathStep} {steps : List PathStep}
    (named : AreNamed (step :: steps)) : AreNamed steps :=
  fun name member => named name (List.mem_cons_of_mem _ member)

theorem areNamed_nil : AreNamed [] :=
  fun _ member => absurd member List.not_mem_nil

theorem areNamed_child : AreNamed [.child "a"] := by
  intro name member
  cases List.mem_singleton.mp member
  decide

/-- A point lets through what follows it, and a bracket does not. -/
theorem startsCased_stepsChars {steps : List PathStep} (named : AreNamed steps) :
    Text.startsCased (stepsChars steps) = entersSchema steps := by
  cases steps with
  | nil => rfl
  | cons step steps =>
      rw [stepsChars, List.flatMap_cons]
      cases step with
      | slot position =>
          rw [PathStep.toList_text_slot, List.cons_append, Text.startsCased_bracket]
          rfl
      | child name =>
          have isName := named name List.mem_cons_self
          rw [PathStep.toList_text_child, List.cons_append, Text.startsCased_point]
          cases chars : name.toList with
          | nil =>
              rw [chars] at isName
              cases isName
          | cons c rest =>
              rw [chars, Text.isName, Bool.and_eq_true] at isName
              rw [List.cons_append, Text.startsCased_of_isNameStart isName.1]
              rfl

/-! ## Keys -/

/-- The form of a name in front of steps. -/
def segmentKey (name : String) (steps : List PathStep) : List Char :=
  Text.lowercasePart [] (stepsChars steps) name.toList

/-- The lowercase of steps. -/
def stepsKey : List PathStep → List Char
  | [] => []
  | .slot position :: steps => '[' :: (Text.naturalDigits position ++ ']' :: stepsKey steps)
  | .child name :: steps => '.' :: (segmentKey name steps ++ stepsKey steps)

/-- The lowercase of a path. -/
def pathKey (root : String) (steps : List PathStep) : List Char :=
  segmentKey root steps ++ stepsKey steps

theorem stepsKey_slot (position : Nat) (steps : List PathStep) :
    stepsKey (.slot position :: steps) =
      '[' :: (Text.naturalDigits position ++ ']' :: stepsKey steps) :=
  rfl

/-- Steps are lowered alike whatever stands before them. -/
theorem lowercaseFrom_stepsChars {steps : List PathStep} (named : AreNamed steps)
    (before : List Char) : Text.lowercaseFrom before (stepsChars steps) = stepsKey steps := by
  induction steps generalizing before with
  | nil => rfl
  | cons step steps inductionHypothesis =>
      rw [stepsChars, List.flatMap_cons, ← stepsChars]
      cases step with
      | slot position =>
          rw [PathStep.toList_text_slot, List.cons_append, List.append_assoc,
            List.singleton_append, Text.lowercaseFrom_cons, Text.lowercaseFrom_append,
            Text.lowercaseFrom_cons, inductionHypothesis named.tail,
            Text.lowercasePart_of_isDigit fun _ => Text.isDigit_of_mem_naturalDigits]
          rfl
      | child name =>
          have isName := named name List.mem_cons_self
          rw [PathStep.toList_text_child, List.cons_append, Text.lowercaseFrom_cons,
            Text.lowercaseFrom_append, inductionHypothesis named.tail,
            Text.lowercasePart_of_isName isName]
          rfl

/-- The key of a path with names is its lowercase, name by name. -/
theorem of_pathName {steps : List PathStep} (named : AreNamed steps) (root : String) :
    NameKey.of (pathName root steps) = ⟨String.ofList (pathKey root steps)⟩ := by
  rw [NameKey.of, Text.lowercase, toList_pathName, Text.lowercaseFrom_append,
    lowercaseFrom_stepsChars named]
  rfl

/-! ## Names in paths -/

/-- What matters for a name in front of steps is only whether another name comes next. -/
theorem segmentKey_congr {steps others : List PathStep} (named : AreNamed steps)
    (othersNamed : AreNamed others) (alike : entersSchema steps = entersSchema others)
    (name : String) : segmentKey name steps = segmentKey name others := by
  apply Text.lowercasePart_congr rfl
  rw [startsCased_stepsChars named, startsCased_stepsChars othersNamed, alike]

theorem of_pathName_eq_iff {steps : List PathStep} (named : AreNamed steps)
    {left right : String} :
    NameKey.of (pathName left steps) = NameKey.of (pathName right steps) ↔
      segmentKey left steps = segmentKey right steps := by
  rw [of_pathName named, of_pathName named, NameKey.mk.injEq, String.ofList_inj, pathKey,
    pathKey, List.append_left_inj]

theorem of_eq_iff {left right : String} :
    NameKey.of left = NameKey.of right ↔ segmentKey left [] = segmentKey right [] :=
  of_pathName_eq_iff areNamed_nil

theorem within_eq_within_iff {left right : String} :
    NameKey.within left = NameKey.within right ↔
      segmentKey left [.child "a"] = segmentKey right [.child "a"] :=
  of_pathName_eq_iff areNamed_child

/-- A name that no other name follows is in the key as it is on its own. -/
theorem of_eq_of_segmentKey_eq {steps : List PathStep} (named : AreNamed steps)
    (stays : entersSchema steps = false) {left right : String}
    (same : segmentKey left steps = segmentKey right steps) :
    NameKey.of left = NameKey.of right := by
  rw [of_eq_iff, segmentKey_congr areNamed_nil named stays.symm,
    segmentKey_congr areNamed_nil named stays.symm]
  exact same

theorem within_eq_of_segmentKey_eq {steps : List PathStep} (named : AreNamed steps)
    (enters : entersSchema steps = true) {left right : String}
    (same : segmentKey left steps = segmentKey right steps) :
    NameKey.within left = NameKey.within right := by
  rw [within_eq_within_iff, segmentKey_congr areNamed_child named enters.symm,
    segmentKey_congr areNamed_child named enters.symm]
  exact same

/-- Only capital sigmas make a difference between the two forms of a name. -/
theorem within_eq_iff_of_no_sigma {left right : String} (leftPlain : 'Σ' ∉ left.toList)
    (rightPlain : 'Σ' ∉ right.toList) :
    NameKey.within left = NameKey.within right ↔ NameKey.of left = NameKey.of right := by
  have alone : ∀ name : String, 'Σ' ∉ name.toList →
      segmentKey name [.child "a"] = segmentKey name [] :=
    fun _ plain => Text.lowercasePart_of_no_sigma plain [] [] _ _
  rw [within_eq_within_iff, of_eq_iff, alone left leftPlain, alone right rightPlain]

/-! ## Reading keys back -/

theorem isSeparator_of_head?_stepsKey {steps : List PathStep} :
    ∀ c ∈ (stepsKey steps).head?, Text.isSeparator c = true := by
  intro c first
  cases steps with
  | nil => cases first
  | cons step steps =>
      cases step with
      | slot => cases first; rfl
      | child => cases first; rfl

theorem isSeparator_of_mem_segmentKey {name : String} (named : Text.isName name.toList = true)
    {steps : List PathStep} : ∀ c ∈ segmentKey name steps, Text.isSeparator c = false :=
  fun _ => Text.isSeparator_of_mem_lowercasePart (Text.isWord_of_isName named)

/-- A name in a key ends where the steps start. -/
theorem eq_of_pathKey_eq {left right : String} (leftNamed : Text.isName left.toList = true)
    (rightNamed : Text.isName right.toList = true) {steps others : List PathStep}
    (same : pathKey left steps = pathKey right others) :
    segmentKey left steps = segmentKey right others ∧ stepsKey steps = stepsKey others :=
  Text.append_inj_of_marks (isSeparator_of_mem_segmentKey leftNamed)
    (isSeparator_of_mem_segmentKey rightNamed) isSeparator_of_head?_stepsKey
    isSeparator_of_head?_stepsKey same

/-- The bracket after a position is none of its digits. -/
theorem naturalDigits_free (position : Nat) :
    ∀ c ∈ Text.naturalDigits position, (c == ']') = false := by
  intro c member
  rw [beq_eq_false_iff_ne]
  rintro rfl
  cases Text.isDigit_of_mem_naturalDigits member

/-- A position in a key ends at its bracket. -/
theorem eq_of_stepsKey_slot_eq {position other : Nat} {steps others : List PathStep}
    (same : stepsKey (.slot position :: steps) = stepsKey (.slot other :: others)) :
    position = other ∧ stepsKey steps = stepsKey others := by
  rw [stepsKey_slot, stepsKey_slot, List.cons_inj_right] at same
  obtain ⟨digits, rest⟩ := Text.append_inj_of_marks (naturalDigits_free position)
    (naturalDigits_free other) (fun _ first => by cases first; rfl)
    (fun _ first => by cases first; rfl) same
  have values := congrArg Text.digitsValue digits
  rw [Text.digitsValue_naturalDigits, Text.digitsValue_naturalDigits] at values
  exact ⟨values, (List.cons.inj rest).2⟩

theorem entersSchema_eq_of_stepsKey_eq {steps others : List PathStep}
    (same : stepsKey steps = stepsKey others) : entersSchema steps = entersSchema others := by
  have starts : ∀ steps, entersSchema steps = decide ((stepsKey steps).head? = some '.') := by
    intro steps
    cases steps with
    | nil => rfl
    | cons step steps => cases step <;> rfl
  rw [starts, starts, same]

end Tabula
