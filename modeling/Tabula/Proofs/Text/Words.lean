import Mathlib.Data.List.TakeWhile
import Tabula.Definition.NameText
import Tabula.Text.Digit

/-!
# Words among blanks

No blank is a word character or a digit of any script.  So a reader that takes as many
characters of one class as it finds stops exactly where the next class begins, and takes
back out of a joined text the parts that were put into it.
-/

namespace Tabula.Text

/-! ## Classes of characters -/

/-- The code points of the blanks. -/
def blankCodes : List Nat :=
  blankRanges.flatMap fun (first, last) => List.range' first (last + 1 - first)

/-- What holds of the characters with these codes holds of all blanks. -/
theorem forall_blank {Holds : Char → Prop}
    (checked : ∀ code ∈ blankCodes, Holds (Char.ofNat code)) :
    ∀ c : Char, isBlank c = true → Holds c := by
  intro c blank
  rcases exists_range_of_inRanges blank with ⟨range, member, low, high⟩
  have inside : c.toNat ∈ List.range' range.1 (range.2 + 1 - range.1) := by
    rw [List.mem_range'_1]
    omega
  have here := checked c.toNat (List.mem_flatMap.mpr ⟨range, member, inside⟩)
  rw [Char.ofNat_toNat] at here
  exact here

theorem isWord_of_isBlank : ∀ c : Char, isBlank c = true → isWord c = false :=
  forall_blank (by decide +kernel)

theorem isDigit_of_isBlank : ∀ c : Char, isBlank c = true → isDigit c = false :=
  forall_blank (by decide +kernel)

theorem isBlank_of_isWord {c : Char} (word : isWord c = true) : isBlank c = false := by
  by_contra blank
  rw [Bool.not_eq_false] at blank
  rw [isWord_of_isBlank c blank] at word
  cases word

/-- A basic digit is a word character. -/
theorem isWord_of_isDigit {c : Char} (digit : c.isDigit = true) : isWord c = true := by
  simp [isWord, basic_of_isDigit digit, digit]

theorem isWord_of_isName {name : List Char} (named : isName name = true) :
    ∀ c ∈ name, isWord c = true := by
  cases name with
  | nil => exact List.forall_mem_nil _
  | cons c rest =>
      rw [isName, Bool.and_eq_true, List.all_eq_true] at named
      exact List.forall_mem_cons.mpr ⟨isWord_of_isNameStart named.1, named.2⟩

theorem ne_nil_of_isName {name : List Char} (named : isName name = true) : name ≠ [] := by
  rintro rfl
  cases named

/-! ## Where a class ends -/

/-- The text is over, or goes on with a character that fails the test. -/
def StopsAt (test : Char → Bool) (rest : List Char) : Prop :=
  ∀ c ∈ rest.head?, test c = false

theorem stopsAt_cons {test : Char → Bool} {c : Char} (fails : test c = false)
    (rest : List Char) : StopsAt test (c :: rest) := by
  intro d member
  cases member
  exact fails

/-- A part of one class before a text stops a test that both fail. -/
theorem StopsAt.append {test : Char → Bool} {part rest : List Char}
    (fail : ∀ c ∈ part, test c = false) (stops : StopsAt test rest) :
    StopsAt test (part ++ rest) := by
  cases part with
  | nil => exact stops
  | cons c part => exact stopsAt_cons (fail c List.mem_cons_self) _

theorem takeWhile_append {test : Char → Bool} {part rest : List Char}
    (pass : ∀ c ∈ part, test c = true) (stops : StopsAt test rest) :
    (part ++ rest).takeWhile test = part := by
  rw [List.takeWhile_append_of_pos pass]
  cases rest with
  | nil => exact List.append_nil part
  | cons c rest =>
      rw [List.takeWhile_cons_of_neg (Bool.eq_false_iff.mp (stops c rfl)), List.append_nil]

theorem dropWhile_append {test : Char → Bool} {part rest : List Char}
    (pass : ∀ c ∈ part, test c = true) (stops : StopsAt test rest) :
    (part ++ rest).dropWhile test = rest := by
  rw [List.dropWhile_append_of_pos pass]
  cases rest with
  | nil => rfl
  | cons c rest => exact List.dropWhile_cons_of_neg (Bool.eq_false_iff.mp (stops c rfl))

/-- Trimming removes the blanks before a text that starts with none. -/
theorem trimStart_append {blanks rest : List Char} (blank : ∀ c ∈ blanks, isBlank c = true)
    (stops : StopsAt isBlank rest) : trimStart (blanks ++ rest) = rest :=
  dropWhile_append blank stops

/-- Trimming the end removes the blanks behind a text that ends with none. -/
theorem trimEnd_append {rest blanks : List Char} (blank : ∀ c ∈ blanks, isBlank c = true)
    (stops : StopsAt isBlank rest.reverse) : trimEnd (rest ++ blanks) = rest := by
  have behind : ∀ c ∈ blanks.reverse, isBlank c = true :=
    fun c member => blank c (List.mem_reverse.mp member)
  rw [trimEnd, List.reverse_append, trimStart_append behind stops, List.reverse_reverse]

/-- Trimming the start leaves alone exactly the texts that start with no blank. -/
theorem trimStart_eq_self_iff {text : List Char} :
    trimStart text = text ↔ StopsAt isBlank text := by
  constructor
  · intro same
    cases text with
    | nil => nofun
    | cons c text =>
        rw [trimStart_cons] at same
        split at same
        · have shorter : (trimStart text).length ≤ text.length :=
            (List.dropWhile_sublist _).length_le
          rw [same, List.length_cons] at shorter
          exact absurd shorter (Nat.not_succ_le_self _)
        · rename_i solid
          exact stopsAt_cons (Bool.eq_false_iff.mpr solid) text
  · exact trimStart_append (List.forall_mem_nil _)

/-- The text is not empty, and neither starts nor ends with a blank. -/
structure Solid (text : List Char) : Prop where
  filled : text ≠ []
  starts : StopsAt isBlank text
  ends : StopsAt isBlank text.reverse

/-- A text that trimming leaves alone has no blanks at its ends. -/
theorem solid_of_trim {text : List Char} (filled : text ≠ []) (same : trim text = text) :
    Solid text := by
  have shorter : (trim text).length ≤ (trimStart text).length := by
    have ended : (trimStart (trimStart text).reverse).length ≤ (trimStart text).reverse.length :=
      (List.dropWhile_sublist _).length_le
    rw [trim, trimEnd, List.length_reverse]
    exact ended.trans_eq List.length_reverse
  rw [same] at shorter
  have start : trimStart text = text := (List.dropWhile_suffix _).eq_of_length_le shorter
  rw [trim, start, trimEnd] at same
  have finish : trimStart text.reverse = text.reverse := by
    rw [← same, List.reverse_reverse, trimStart_trimStart]
  exact ⟨filled, trimStart_eq_self_iff.mp start, trimStart_eq_self_iff.mp finish⟩

theorem trim_toList {text : String} (same : trimText text = text) :
    trim text.toList = text.toList := by
  have trimmed := congrArg String.toList same
  rwa [trimText, String.toList_ofList] at trimmed

theorem solid_of_trimText {text : String} (filled : text ≠ "") (same : trimText text = text) :
    Solid text.toList :=
  solid_of_trim (mt String.toList_eq_nil_iff.mp filled) (trim_toList same)

/-- A text that holds no blank has none at its ends. -/
theorem solid_of_forall {text : List Char} (filled : text ≠ [])
    (solid : ∀ c ∈ text, isBlank c = false) : Solid text where
  filled := filled
  starts := fun c first => solid c (List.mem_of_mem_head? first)
  ends := fun c last => solid c (List.mem_reverse.mp (List.mem_of_mem_head? last))

theorem solid_of_isWord {word : List Char} (filled : word ≠ [])
    (isWords : ∀ c ∈ word, isWord c = true) : Solid word :=
  solid_of_forall filled fun c member => isBlank_of_isWord (isWords c member)

/-- What stands behind a text without blanks at its start does not bring any there. -/
theorem Solid.starts_append {text : List Char} (solid : Solid text) (rest : List Char) :
    StopsAt isBlank (text ++ rest) := by
  cases text with
  | nil => exact absurd rfl solid.filled
  | cons c text => exact stopsAt_cons (solid.starts c rfl) _

/-- Trimming removes the blanks around a text and nothing else. -/
theorem Solid.trim_append {text leading trailing : List Char} (solid : Solid text)
    (before : ∀ c ∈ leading, isBlank c = true) (behind : ∀ c ∈ trailing, isBlank c = true) :
    trim (leading ++ (text ++ trailing)) = text := by
  rw [trim, trimStart_append before (solid.starts_append trailing),
    trimEnd_append behind solid.ends]

theorem Solid.trim_eq {text : List Char} (solid : Solid text) : trim text = text := by
  have whole := solid.trim_append (List.forall_mem_nil _) (List.forall_mem_nil _)
  rwa [List.nil_append, List.append_nil] at whole

/-- What stands in front of a text without blanks at its end does not bring any there. -/
theorem Solid.ends_append {text : List Char} (solid : Solid text) (front : List Char) :
    StopsAt isBlank (front ++ text).reverse := by
  have ends := solid.ends
  have filled : text.reverse ≠ [] := mt List.reverse_eq_nil_iff.mp solid.filled
  rw [List.reverse_append]
  cases backwards : text.reverse with
  | nil => exact absurd backwards filled
  | cons c others =>
      rw [backwards] at ends
      exact stopsAt_cons (ends c rfl) _

/-- What stands between two solid texts does not matter. -/
theorem Solid.join {front text : List Char} (first : Solid front) (last : Solid text)
    (middle : List Char) : Solid (front ++ (middle ++ text)) where
  filled := fun empty => first.filled (List.append_eq_nil_iff.mp empty).1
  starts := first.starts_append _
  ends := by
    rw [← List.append_assoc]
    exact last.ends_append _

theorem Solid.trimEnd_append {text : List Char} (solid : Solid text) (front : List Char) :
    trimEnd (front ++ text) = front ++ text := by
  rw [trimEnd, trimStart_eq_self_iff.mpr (solid.ends_append front), List.reverse_reverse]

/-- Trimming the start takes nothing from the first character on that is no blank. -/
theorem exists_trimStart_append {c : Char} (solid : isBlank c = false) (part rest : List Char) :
    ∃ front, trimStart (part ++ c :: rest) = front ++ c :: rest := by
  induction part with
  | nil => exact ⟨[], trimStart_eq_self_iff.mpr (stopsAt_cons solid rest)⟩
  | cons d part inductionHypothesis =>
      rw [List.cons_append, trimStart_cons]
      split
      · exact inductionHypothesis
      · exact ⟨d :: part, rfl⟩

/-- A name is taken from the start of a text up to its end. -/
theorem takeName?_append {name rest : List Char} (named : isName name = true)
    (stops : StopsAt isWord rest) : takeName? (name ++ rest) = some (name, rest) := by
  cases name with
  | nil => cases named
  | cons c name =>
      rw [isName, Bool.and_eq_true, List.all_eq_true] at named
      rw [List.cons_append, takeName?, if_pos named.1, takeWhile_append named.2 stops,
        dropWhile_append named.2 stops]

/-- A word starts with no blank. -/
theorem stopsAt_word {word : List Char} (isWords : ∀ c ∈ word, isWord c = true)
    (filled : word ≠ []) (rest : List Char) : StopsAt isBlank (word ++ rest) :=
  (solid_of_isWord filled isWords).starts_append rest

theorem stopsAt_name {name : List Char} (named : isName name = true) (rest : List Char) :
    StopsAt isBlank (name ++ rest) :=
  stopsAt_word (isWord_of_isName named) (ne_nil_of_isName named) rest

end Tabula.Text
