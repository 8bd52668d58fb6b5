import Tabula.Definition.NameText
import Tabula.Number.Whole
import Tabula.Text.Lowercase

/-!
# The lowercase of joined texts

Each character is lowered on its own, apart from a capital sigma: what it becomes depends on
whether the nearest character of a word on either side is cased.  So a part of a text is
lowered as if it stood alone, once it is known what its neighbours are.  A name starts with a
cased letter, which hides from the rest of the name what stands before it.
-/

namespace Tabula.Text

/-! ## Basic characters -/

/-- What holds of all codes below the letters with marks holds of the characters. -/
theorem forall_basic {Holds : Char → Prop}
    (checked : ∀ code < 0x80, Holds (Char.ofNat code)) :
    ∀ c : Char, c.toNat < 0x80 → Holds c := by
  intro c basic
  have here := checked c.toNat basic
  rw [Char.ofNat_toNat] at here
  exact here

/-! ## Neighbours -/

theorem startsCased_cons (c : Char) (cs : List Char) :
    startsCased (c :: cs) = if isCaseIgnorable c then startsCased cs else isCased c := by
  unfold startsCased
  rw [List.dropWhile_cons]
  cases isCaseIgnorable c <;> rfl

/-- What follows a text matters only by whether it starts cased. -/
theorem startsCased_append_congr {left right : List Char}
    (same : startsCased left = startsCased right) (cs : List Char) :
    startsCased (cs ++ left) = startsCased (cs ++ right) := by
  induction cs with
  | nil => exact same
  | cons c cs inductionHypothesis =>
      rw [List.cons_append, List.cons_append, startsCased_cons, startsCased_cons,
        inductionHypothesis]

/-- The letters that start a name are cased. -/
theorem startsCased_of_isNameStart {c : Char} (start : isNameStart c = true) (cs : List Char) :
    startsCased (c :: cs) = true := by
  have letters : ∀ c : Char, c.toNat < 0x80 →
      isNameStart c = true → isCaseIgnorable c = false ∧ isCased c = true :=
    forall_basic (by decide +kernel)
  obtain ⟨solid, cased⟩ := letters c (basic_of_isNameStart start) start
  rw [startsCased_cons, solid]
  exact cased

/-- What comes before a point in a word takes no notice of the point. -/
theorem startsCased_point (cs : List Char) : startsCased ('.' :: cs) = startsCased cs := by
  rw [startsCased_cons, if_pos (by decide +kernel)]

theorem startsCased_bracket (cs : List Char) : startsCased ('[' :: cs) = false := by
  rw [startsCased_cons, if_neg (by decide +kernel)]
  decide +kernel

/-! ## Parts of a text -/

/-- What a character becomes between the letters before it, nearest first, and those after. -/
def lowercaseAt (before after : List Char) (c : Char) : List Char :=
  if c = 'Σ' then [lowercaseSigma before after]
  else if c = 'İ' then ['i', '\u0307']
  else [lowercaseChar c]

/-- What a part of a text becomes between the letters before it and those after it. -/
def lowercasePart (before after : List Char) : List Char → List Char
  | [] => []
  | c :: rest => lowercaseAt before (rest ++ after) c ++ lowercasePart (c :: before) after rest

theorem lowercaseFrom_cons (before : List Char) (c : Char) (after : List Char) :
    lowercaseFrom before (c :: after) =
      lowercaseAt before after c ++ lowercaseFrom (c :: before) after :=
  rfl

theorem lowercasePart_cons (before after : List Char) (c : Char) (rest : List Char) :
    lowercasePart before after (c :: rest) =
      lowercaseAt before (rest ++ after) c ++ lowercasePart (c :: before) after rest :=
  rfl

/-- A text is lowered part by part. -/
theorem lowercaseFrom_append (before part after : List Char) :
    lowercaseFrom before (part ++ after) =
      lowercasePart before after part ++ lowercaseFrom (part.reverse ++ before) after := by
  induction part generalizing before with
  | nil => rfl
  | cons c rest inductionHypothesis =>
      rw [List.cons_append, lowercaseFrom_cons, inductionHypothesis, lowercasePart_cons,
        List.append_assoc, List.reverse_cons, List.append_assoc, List.singleton_append]

theorem lowercaseAt_congr {before other after next : List Char}
    (left : startsCased before = startsCased other)
    (right : startsCased after = startsCased next) (c : Char) :
    lowercaseAt before after c = lowercaseAt other next c := by
  simp only [lowercaseAt, lowercaseSigma, left, right]

/-- A part is lowered alike wherever its neighbours start cased alike. -/
theorem lowercasePart_congr {before other after next : List Char}
    (left : startsCased before = startsCased other)
    (right : startsCased after = startsCased next) (part : List Char) :
    lowercasePart before after part = lowercasePart other next part := by
  induction part generalizing before other with
  | nil => rfl
  | cons c rest inductionHypothesis =>
      have further : startsCased (c :: before) = startsCased (c :: other) := by
        rw [startsCased_cons, startsCased_cons, left]
      rw [lowercasePart_cons, lowercasePart_cons, inductionHypothesis further,
        lowercaseAt_congr left (startsCased_append_congr right rest)]

/-- Without capital sigmas a part is lowered alike wherever it stands. -/
theorem lowercasePart_of_no_sigma {part : List Char} (plain : 'Σ' ∉ part)
    (before other after next : List Char) :
    lowercasePart before after part = lowercasePart other next part := by
  induction part generalizing before other with
  | nil => rfl
  | cons c rest inductionHypothesis =>
      rw [List.mem_cons, not_or] at plain
      rw [lowercasePart_cons, lowercasePart_cons, lowercaseAt, lowercaseAt,
        if_neg (Ne.symm plain.1), if_neg (Ne.symm plain.1),
        inductionHypothesis plain.2 (c :: before) (c :: other)]

/-- Characters below the letters with marks are lowered one by one. -/
theorem lowercaseAt_basic {c : Char} (basic : c.toNat < 0x80) (before after : List Char) :
    lowercaseAt before after c = [c.toLower] := by
  have notSigma : c ≠ 'Σ' := by
    rintro rfl
    exact absurd basic (by decide)
  have notDotted : c ≠ 'İ' := by
    rintro rfl
    exact absurd basic (by decide)
  rw [lowercaseAt, if_neg notSigma, if_neg notDotted, lowercaseChar, if_pos basic]

/-- A name is lowered alike whatever stands before it. -/
theorem lowercasePart_of_isName {name : List Char} (named : isName name = true)
    (before after : List Char) :
    lowercasePart before after name = lowercasePart [] after name := by
  cases name with
  | nil => rfl
  | cons c rest =>
      rw [isName, Bool.and_eq_true] at named
      have basic := basic_of_isNameStart named.1
      have further : startsCased (c :: before) = startsCased [c] := by
        rw [startsCased_of_isNameStart named.1, startsCased_of_isNameStart named.1]
      rw [lowercasePart_cons, lowercasePart_cons, lowercaseAt_basic basic,
        lowercaseAt_basic basic, lowercasePart_congr further rfl]

/-! ## Separators -/

/-- The character starts a step of a path. -/
def isSeparator (c : Char) : Bool :=
  c = '.' || c = '['

theorem toNat_lt_of_isSeparator {c : Char} (separator : isSeparator c = true) :
    c.toNat < 0x60 := by
  rw [isSeparator, Bool.or_eq_true, decide_eq_true_eq, decide_eq_true_eq] at separator
  rcases separator with rfl | rfl <;> decide

theorem isSeparator_ofNat {code : Nat} (large : 0x60 ≤ code) :
    isSeparator (Char.ofNat code) = false := by
  by_cases valid : code.isValidChar
  · rw [Char.ofNat, dif_pos valid, ← Bool.not_eq_true]
    intro separator
    exact absurd (toNat_lt_of_isSeparator separator) (Nat.not_lt.mpr large)
  · rw [Char.ofNat, dif_neg valid]
    rfl

/-- Small letters stand beyond the separators. -/
theorem le_smallCode {code : Nat} (large : 0x80 ≤ code) : 0x60 ≤ smallCode code := by
  have runs : ∀ run ∈ capitalRuns, 0x60 ≤ run.small := by
    decide +kernel
  unfold smallCode
  split
  · rename_i run found
    have := runs run (List.mem_of_find?_eq_some found)
    omega
  · omega

theorem isSeparator_lowercaseChar {c : Char} (word : isWord c = true) :
    isSeparator (lowercaseChar c) = false := by
  have basic : ∀ c : Char, c.toNat < 0x80 → isWord c = true → isSeparator c.toLower = false :=
    forall_basic (by decide +kernel)
  unfold lowercaseChar
  split
  · rename_i small
    exact basic c small word
  · rename_i large
    exact isSeparator_ofNat (le_smallCode (Nat.le_of_not_lt large))

theorem isSeparator_of_mem_lowercaseAt {before after : List Char} {c d : Char}
    (word : isWord c = true) (member : d ∈ lowercaseAt before after c) :
    isSeparator d = false := by
  unfold lowercaseAt at member
  split at member
  · rw [List.mem_singleton, lowercaseSigma] at member
    subst member
    split <;> decide
  · split at member
    · rw [List.mem_cons, List.mem_singleton] at member
      rcases member with rfl | rfl <;> decide
    · rw [List.mem_singleton] at member
      subst member
      exact isSeparator_lowercaseChar word

/-- No word has a separator in its lowercase. -/
theorem isSeparator_of_mem_lowercasePart {before after word : List Char}
    (isWord : ∀ c ∈ word, isWord c = true) {d : Char}
    (member : d ∈ lowercasePart before after word) : isSeparator d = false := by
  induction word generalizing before with
  | nil => cases member
  | cons c rest inductionHypothesis =>
      rw [List.forall_mem_cons] at isWord
      rw [lowercasePart_cons, List.mem_append] at member
      rcases member with here | further
      · exact isSeparator_of_mem_lowercaseAt isWord.1 here
      · exact inductionHypothesis isWord.2 further

/-! ## Digits -/

theorem isDigit_of_mem_naturalDigits {number : Nat} {c : Char}
    (member : c ∈ naturalDigits number) : c.isDigit = true := by
  have digits : ∀ digit < 10, (digitChar digit).isDigit = true := by
    decide
  induction number using Nat.strongRecOn with
  | ind number inductionHypothesis =>
      unfold naturalDigits at member
      split at member
      · rename_i small
        rw [List.mem_singleton] at member
        subst member
        exact digits number small
      · rw [List.mem_append, List.mem_singleton] at member
        rcases member with earlier | rfl
        · exact inductionHypothesis (number / 10) (by omega) earlier
        · exact digits _ (Nat.mod_lt _ (by decide))

/-- Digits are lowercase already. -/
theorem lowercasePart_of_isDigit {digits : List Char}
    (areDigits : ∀ c ∈ digits, c.isDigit = true) (before after : List Char) :
    lowercasePart before after digits = digits := by
  have kept : ∀ c : Char, c.toNat < 0x80 → c.isDigit = true → c.toLower = c :=
    forall_basic (by decide +kernel)
  induction digits generalizing before with
  | nil => rfl
  | cons c rest inductionHypothesis =>
      rw [List.forall_mem_cons] at areDigits
      have basic := basic_of_isDigit areDigits.1
      rw [lowercasePart_cons, lowercaseAt_basic basic, kept c basic areDigits.1,
        inductionHypothesis areDigits.2]
      rfl

/-! ## Where a part ends -/

/-- Joined texts of one form have the same parts, when each first part ends where a mark
comes for the first time. -/
theorem append_inj_of_marks {isMark : Char → Bool} {left right rest other : List Char}
    (leftFree : ∀ c ∈ left, isMark c = false) (rightFree : ∀ c ∈ right, isMark c = false)
    (restMarked : ∀ c ∈ rest.head?, isMark c = true)
    (otherMarked : ∀ c ∈ other.head?, isMark c = true)
    (same : left ++ rest = right ++ other) : left = right ∧ rest = other := by
  have takes : ∀ part marked : List Char, (∀ c ∈ part, isMark c = false) →
      (∀ c ∈ marked.head?, isMark c = true) →
      (part ++ marked).takeWhile (fun c => !isMark c) = part := by
    intro part marked free starts
    have stops : marked.takeWhile (fun c => !isMark c) = [] := by
      cases marked with
      | nil => rfl
      | cons c further => rw [List.takeWhile_cons, starts c rfl]; rfl
    rw [List.takeWhile_append_of_pos, stops, List.append_nil]
    intro c member
    rw [free c member]
    rfl
  have first : left = right := by
    rw [← takes left rest leftFree restMarked, same, takes right other rightFree otherMarked]
  subst first
  exact ⟨rfl, List.append_cancel_left same⟩

end Tabula.Text
