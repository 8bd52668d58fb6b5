import Mathlib.Data.List.TakeWhile
import Tabula.Definition.Comments

/-!
# Documents with comments

A document is a sequence of parts: quoted texts, comments, and single characters outside of
both.  Where a part ends is said without the scanner that removes comments, so that the rule
for the scanner can be stated by parts: quoted texts and characters outside stay in full, and
of a comment only its line ends stay.

Removing comments brings the characters around them together.  This never makes up a new
comment: no slash outside stands right in front of a comment, because the two would have
started one.  So a document without its comments is a document whose parts are none.
-/

namespace Tabula.Comments

/-! ## Parts -/

/-- A part of a document. -/
inductive Part where
  /-- A character outside quoted texts and comments. -/
  | plain (c : Char)
  | quoted (content : List Char)
  /-- A quoted text that the document breaks off. -/
  | openQuoted (content : List Char)
  /-- A comment to the end of the line, which is not part of it. -/
  | line (content : List Char)
  | block (content : List Char)
  /-- A comment between marks that the document breaks off. -/
  | openBlock (content : List Char)
  deriving DecidableEq

namespace Part

/-- How a part is written. -/
def text : Part → List Char
  | plain c => [c]
  | quoted content => '"' :: (content ++ ['"'])
  | openQuoted content => '"' :: content
  | line content => '/' :: '/' :: content
  | block content => '/' :: '*' :: (content ++ ['*', '/'])
  | openBlock content => '/' :: '*' :: content

/-- What stays of a part: all of it, but of a comment only its line ends. -/
def kept : Part → List Part
  | line content | block content | openBlock content =>
    (content.filter (· = '\n')).map plain
  | part => [part]

end Part

/-- How parts are written one after another. -/
def textOf (parts : List Part) : List Char :=
  parts.flatMap Part.text

/-- What stays of the parts of a document. -/
def keptOf (parts : List Part) : List Part :=
  parts.flatMap Part.kept

section

variable (part : Part) (parts others : List Part)

@[simp]
theorem textOf_nil : textOf [] = [] :=
  rfl

@[simp]
theorem textOf_cons : textOf (part :: parts) = part.text ++ textOf parts :=
  rfl

@[simp]
theorem textOf_append : textOf (parts ++ others) = textOf parts ++ textOf others :=
  List.flatMap_append

@[simp]
theorem textOf_map_plain (content : List Char) : textOf (content.map .plain) = content := by
  induction content with
  | nil => rfl
  | cons c content inductionHypothesis =>
      rw [List.map_cons, textOf_cons, inductionHypothesis]
      rfl

@[simp]
theorem keptOf_nil : keptOf [] = [] :=
  rfl

@[simp]
theorem keptOf_cons : keptOf (part :: parts) = part.kept ++ keptOf parts :=
  rfl

@[simp]
theorem keptOf_append : keptOf (parts ++ others) = keptOf parts ++ keptOf others :=
  List.flatMap_append

@[simp]
theorem keptOf_map_plain (content : List Char) :
    keptOf (content.map .plain) = content.map .plain := by
  induction content with
  | nil => rfl
  | cons c content inductionHypothesis =>
      rw [List.map_cons, keptOf_cons, inductionHypothesis]
      rfl

end

/-! ## Where parts end -/

/-- The text stands between quotes: each quote in it is escaped.  A text that the document
breaks off may end in the middle of an escape. -/
def isInside (brokenOff : Bool) : List Char → Bool
  | [] => true
  | ['\\'] => brokenOff
  | '\\' :: _ :: content => isInside brokenOff content
  | c :: content => c ≠ '"' && isInside brokenOff content

/-- The part ends where the rest of the document begins. -/
def Part.EndsBefore (rest : List Char) : Part → Prop
  | plain c => c ≠ '"' ∧ (c = '/' → ∀ d ∈ rest.head?, d ≠ '/' ∧ d ≠ '*')
  | quoted content => isInside false content = true
  | openQuoted content => isInside true content = true ∧ rest = []
  | line content => '\n' ∉ content ∧ ∀ d ∈ rest.head?, d = '\n'
  | block content => ¬['*', '/'] <:+: content
  | openBlock content => ¬['*', '/'] <:+: content ∧ rest = []

-- What comes first is looked at by name: it could also be decided by trying all characters.
instance (rest : List Char) (part : Part) : Decidable (part.EndsBefore rest) :=
  match part with
  | .plain _ =>
    have : Decidable (∀ d ∈ rest.head?, d ≠ '/' ∧ d ≠ '*') := Option.decidableForallMem _
    inferInstanceAs (Decidable (_ ∧ _))
  | .quoted _ => inferInstanceAs (Decidable (_ = true))
  | .openQuoted _ => inferInstanceAs (Decidable (_ ∧ _))
  | .line _ =>
    have : Decidable (∀ d ∈ rest.head?, d = '\n') := Option.decidableForallMem _
    inferInstanceAs (Decidable (_ ∧ _))
  | .block _ => inferInstanceAs (Decidable (¬_))
  | .openBlock _ => inferInstanceAs (Decidable (_ ∧ _))

/-- Each part ends where the next one begins. -/
def IsDocument : List Part → Prop
  | [] => True
  | part :: parts => part.EndsBefore (textOf parts) ∧ IsDocument parts

instance decidableIsDocument : (parts : List Part) → Decidable (IsDocument parts)
  | [] => .isTrue trivial
  | _ :: parts =>
    have := decidableIsDocument parts
    inferInstanceAs (Decidable (_ ∧ _))

/-! ## Removing comments part by part -/

section

variable {content rest : List Char}

theorem stripFrom_quoted_cons {c : Char} (quote : c ≠ '"') (backslash : c ≠ '\\')
    (rest : List Char) : stripFrom .quoted (c :: rest) = c :: stripFrom .quoted rest := by
  simp [stripFrom, quote, backslash]

/-- What starts no escape is a backslash at the end or another character. -/
theorem ne_backslash {c : Char} {content : List Char} (notLast : c = '\\' → content = [] → False)
    (noEscape : ∀ (d : Char) (others : List Char), c = '\\' → content = d :: others → False) :
    c ≠ '\\' := by
  intro backslash
  cases content with
  | nil => exact notLast backslash rfl
  | cons d others => exact noEscape d others backslash rfl

theorem stripFrom_inside (inside : isInside false content = true) (rest : List Char) :
    stripFrom .quoted (content ++ '"' :: rest) = content ++ '"' :: stripFrom .plain rest := by
  fun_induction isInside false content with
  | case1 => simp [stripFrom]
  | case2 => cases inside
  | case3 c content inductionHypothesis => simp [stripFrom, inductionHypothesis inside]
  | case4 c content notLast noEscape inductionHypothesis =>
      rw [Bool.and_eq_true, decide_eq_true_eq] at inside
      rw [List.cons_append, stripFrom_quoted_cons inside.1 (ne_backslash notLast noEscape),
        inductionHypothesis inside.2, List.cons_append]

theorem stripFrom_brokenOff (inside : isInside true content = true) :
    stripFrom .quoted content = content := by
  fun_induction isInside true content with
  | case1 => rfl
  | case2 => rfl
  | case3 c content inductionHypothesis => simp [stripFrom, inductionHypothesis inside]
  | case4 c content notLast noEscape inductionHypothesis =>
      rw [Bool.and_eq_true, decide_eq_true_eq] at inside
      rw [stripFrom_quoted_cons inside.1 (ne_backslash notLast noEscape),
        inductionHypothesis inside.2]

/-- A comment of a line is removed up to the line end, which stays. -/
theorem stripFrom_line (within : '\n' ∉ content) (ends : ∀ d ∈ rest.head?, d = '\n') :
    stripFrom .line (content ++ rest) = stripFrom .plain rest := by
  induction content with
  | nil =>
      cases rest with
      | nil => rfl
      | cons d rest =>
          cases ends d rfl
          simp [stripFrom]
  | cons c content inductionHypothesis =>
      rw [List.mem_cons, not_or] at within
      rw [List.cons_append, stripFrom, if_neg (Ne.symm within.1), inductionHypothesis within.2]

/-- In a comment between marks no star is followed by a slash. -/
theorem not_closing_cons {c : Char} (within : ¬['*', '/'] <:+: c :: content) :
    ¬['*', '/'] <:+: content ∧ (c = '*' → content.head? ≠ some '/') := by
  rw [List.infix_cons_iff, not_or] at within
  refine ⟨within.2, ?_⟩
  rintro rfl slash
  obtain ⟨others, rfl⟩ := List.head?_eq_some_iff.mp slash
  exact within.1 ⟨others, rfl⟩

/-- Inside a comment between marks only line ends stay. -/
theorem exists_stripFrom_block {afterStar : Bool} (within : ¬['*', '/'] <:+: content)
    (apart : afterStar = true → content.head? ≠ some '/') (rest : List Char) :
    ∃ after, stripFrom (.block afterStar) (content ++ rest) =
      content.filter (· = '\n') ++ stripFrom (.block after) rest := by
  induction content generalizing afterStar with
  | nil => exact ⟨afterStar, rfl⟩
  | cons c content inductionHypothesis =>
      obtain ⟨further, star⟩ := not_closing_cons within
      have goesOn : ¬(afterStar && decide (c = '/')) = true := by
        rw [Bool.and_eq_true, decide_eq_true_eq]
        rintro ⟨starred, rfl⟩
        exact apart starred rfl
      rw [List.cons_append, stripFrom, if_neg goesOn]
      by_cases lineEnd : c = '\n'
      · have unstarred : false = true → content.head? ≠ some '/' := fun impossible => by
          cases impossible
        obtain ⟨after, others⟩ := inductionHypothesis further unstarred
        exact ⟨after, by simp [lineEnd, others]⟩
      · have starred : decide (c = '*') = true → content.head? ≠ some '/' :=
          fun isStar => star (of_decide_eq_true isStar)
        obtain ⟨after, others⟩ := inductionHypothesis further starred
        exact ⟨after, by simp [lineEnd, others]⟩

end

/-- Outside of quoted texts and comments, a character stays that starts none of them. -/
theorem stripFrom_plain_cons {c : Char} {rest : List Char} (quote : c ≠ '"')
    (slash : c = '/' → ∀ d ∈ rest.head?, d ≠ '/' ∧ d ≠ '*') :
    stripFrom .plain (c :: rest) = c :: stripFrom .plain rest := by
  rw [stripFrom, if_neg quote]
  · rintro behind rfl rfl
    exact (slash rfl '/' rfl).1 rfl
  · rintro behind rfl rfl
    exact (slash rfl '*' rfl).2 rfl

/-- A part is replaced by what stays of it, and the removal goes on behind it outside of quoted
texts and comments. -/
theorem stripFrom_part {part : Part} {rest : List Char} (ends : part.EndsBefore rest) :
    stripFrom .plain (part.text ++ rest) = textOf part.kept ++ stripFrom .plain rest := by
  have unstarred (content : List Char) : false = true → content.head? ≠ some '/' :=
    fun impossible => by cases impossible
  cases part with
  | plain c => exact stripFrom_plain_cons ends.1 ends.2
  | quoted content =>
      have further := stripFrom_inside ends rest
      simp [Part.text, Part.kept, stripFrom, further]
  | openQuoted content =>
      obtain ⟨inside, rfl⟩ := ends
      simp [Part.text, Part.kept, stripFrom, stripFrom_brokenOff inside]
  | line content =>
      have further := stripFrom_line ends.1 ends.2
      have lineEnds : content.filter (· = '\n') = [] := by
        rw [List.filter_eq_nil_iff]
        rintro c member lineEnd
        rw [decide_eq_true_eq] at lineEnd
        exact ends.1 (lineEnd ▸ member)
      simp [Part.text, Part.kept, stripFrom, further, lineEnds]
  | block content =>
      obtain ⟨after, further⟩ := exists_stripFrom_block ends (unstarred content)
        ('*' :: '/' :: rest)
      simp [Part.text, Part.kept, stripFrom, further]
  | openBlock content =>
      obtain ⟨within, rfl⟩ := ends
      obtain ⟨after, further⟩ := exists_stripFrom_block within (unstarred content) []
      rw [List.append_nil] at further
      simp [Part.text, Part.kept, stripFrom, further]

/-- Of a document stays what stays of its parts. -/
theorem stripFrom_textOf {parts : List Part} (document : IsDocument parts) :
    stripFrom .plain (textOf parts) = textOf (keptOf parts) := by
  induction parts with
  | nil => rfl
  | cons part parts inductionHypothesis =>
      rw [textOf_cons, stripFrom_part document.1, inductionHypothesis document.2, keptOf_cons,
        textOf_append]

/-! ## Every text is a document -/

theorem isInside_cons {c : Char} (quote : c ≠ '"') (backslash : c ≠ '\\') (brokenOff : Bool)
    (content : List Char) : isInside brokenOff (c :: content) = isInside brokenOff content := by
  simp [isInside, quote, backslash]

/-- A text behind an opening quote has a closing one, or it is broken off. -/
theorem quoted_or_brokenOff (source : List Char) :
    (∃ content rest, source = content ++ '"' :: rest ∧ isInside false content = true) ∨
      isInside true source = true := by
  fun_induction isInside true source with
  | case1 => exact .inr rfl
  | case2 => exact .inr rfl
  | case3 c source inductionHypothesis =>
      rcases inductionHypothesis with ⟨content, rest, rfl, inside⟩ | brokenOff
      · exact .inl ⟨'\\' :: c :: content, rest, rfl, inside⟩
      · exact .inr brokenOff
  | case4 c source notLast noEscape inductionHypothesis =>
      by_cases quote : c = '"'
      · exact .inl ⟨[], source, by rw [quote]; rfl, rfl⟩
      · rcases inductionHypothesis with ⟨content, rest, rfl, inside⟩ | brokenOff
        · refine .inl ⟨c :: content, rest, rfl, ?_⟩
          rw [isInside_cons quote (ne_backslash notLast noEscape), inside]
        · exact .inr (by rw [brokenOff, Bool.and_true, decide_eq_true quote])

/-- A text behind the opening marks of a comment has the closing ones, or it is broken off. -/
theorem block_or_brokenOff (source : List Char) :
    (∃ content rest, source = content ++ '*' :: '/' :: rest ∧ ¬['*', '/'] <:+: content) ∨
      ¬['*', '/'] <:+: source := by
  induction source with
  | nil => exact .inr (by decide)
  | cons c source inductionHypothesis =>
      by_cases closing : ['*', '/'] <+: c :: source
      · obtain ⟨rest, same⟩ := closing
        exact .inl ⟨[], rest, same.symm, by decide⟩
      · rcases inductionHypothesis with ⟨content, rest, rfl, within⟩ | within
        · refine .inl ⟨c :: content, rest, rfl, ?_⟩
          rw [List.infix_cons_iff, not_or]
          refine ⟨mt (fun early => ?_) closing, within⟩
          exact early.trans (List.prefix_append (c :: content) ('*' :: '/' :: rest))
        · refine .inr ?_
          rw [List.infix_cons_iff, not_or]
          exact ⟨closing, within⟩

/-- A text starts with one of the parts, which ends where the rest begins. -/
theorem exists_part (c : Char) (source : List Char) :
    ∃ part rest, c :: source = Part.text part ++ rest ∧ part.EndsBefore rest := by
  by_cases quote : c = '"'
  · subst quote
    rcases quoted_or_brokenOff source with ⟨content, rest, rfl, inside⟩ | brokenOff
    · exact ⟨.quoted content, rest, by simp [Part.text], inside⟩
    · exact ⟨.openQuoted source, [], by simp [Part.text], brokenOff, rfl⟩
  · by_cases starts : c = '/' → ∀ d ∈ source.head?, d ≠ '/' ∧ d ≠ '*'
    · exact ⟨.plain c, source, rfl, quote, starts⟩
    · simp only [Classical.not_imp, not_forall, not_and_or, not_not] at starts
      obtain ⟨rfl, d, first, mark⟩ := starts
      obtain ⟨others, rfl⟩ := List.head?_eq_some_iff.mp first
      rcases mark with rfl | rfl
      · refine ⟨.line (others.takeWhile (· ≠ '\n')), others.dropWhile (· ≠ '\n'), ?_, ?_, ?_⟩
        · simp [Part.text]
        · intro lineEnd
          have other := List.mem_takeWhile_imp lineEnd
          cases other
        · intro e follows
          have stops := List.head?_dropWhile_not (· ≠ '\n') others
          rw [follows] at stops
          simpa using stops
      · rcases block_or_brokenOff others with ⟨content, rest, rfl, within⟩ | within
        · exact ⟨.block content, rest, by simp [Part.text], within⟩
        · exact ⟨.openBlock others, [], by simp [Part.text], within, rfl⟩

theorem text_ne_nil (part : Part) : part.text ≠ [] := by
  cases part <;> exact List.cons_ne_nil _ _

theorem textOf_eq_nil_iff {parts : List Part} : textOf parts = [] ↔ parts = [] := by
  cases parts with
  | nil => simp
  | cons part parts => simp [text_ne_nil]

/-- Every text can be taken apart. -/
theorem exists_parts (source : List Char) : ∃ parts, textOf parts = source ∧ IsDocument parts := by
  induction size : source.length using Nat.strongRecOn generalizing source with
  | ind n inductionHypothesis =>
      cases source with
      | nil => exact ⟨[], rfl, trivial⟩
      | cons c source =>
          obtain ⟨part, rest, same, ends⟩ := exists_part c source
          have shorter : rest.length < n := by
            have filled := List.length_pos_iff.mpr (text_ne_nil part)
            rw [← size, same, List.length_append]
            omega
          obtain ⟨parts, rfl, document⟩ := inductionHypothesis rest.length shorter rest rfl
          exact ⟨part :: parts, same.symm, ends, document⟩

/-! ## What stays -/

/-- The text stays when characters of the source are taken out, of which none ends a line. -/
structure Thins (source text : List Char) : Prop where
  sublist : text.Sublist source
  lineEnds : text.count '\n' = source.count '\n'

namespace Thins

variable {source text : List Char}

theorem append {front frontText : List Char} (first : Thins front frontText)
    (second : Thins source text) : Thins (front ++ source) (frontText ++ text) where
  sublist := first.sublist.append second.sublist
  lineEnds := by rw [List.count_append, List.count_append, first.lineEnds, second.lineEnds]

/-- A character that stays, stays on its line: no matter which character of the source it is
taken for, as many line ends stand before it. -/
theorem same_line (thins : Thins source text) {before after before' after' : List Char} {c : Char}
    (here : text = before ++ c :: after) (there : source = before' ++ c :: after')
    (front : before.Sublist before') (back : after.Sublist after') :
    before.count '\n' = before'.count '\n' := by
  have total := thins.lineEnds
  have fewerBefore := front.count_le '\n'
  have fewerAfter := back.count_le '\n'
  rw [here, there, List.count_append, List.count_append, List.count_cons, List.count_cons] at total
  omega

end Thins

theorem thins_self (part : Part) : Thins part.text (textOf [part]) := by
  rw [textOf_cons, textOf_nil, List.append_nil]
  exact ⟨List.Sublist.refl _, rfl⟩

/-- Of a comment between marks that hold no line end, the line ends stay. -/
theorem thins_lineEnds {opening closing : List Char} (opens : '\n' ∉ opening)
    (closes : '\n' ∉ closing) (content : List Char) :
    Thins (opening ++ (content ++ closing)) (textOf ((content.filter (· = '\n')).map .plain)) where
  sublist := by
    rw [textOf_map_plain]
    have inContent := List.filter_sublist (p := (· = '\n')) (l := content)
    have inClosed := inContent.trans (List.sublist_append_left content closing)
    exact inClosed.trans (List.sublist_append_right opening _)
  lineEnds := by
    rw [textOf_map_plain, List.count_filter (by decide), List.count_append,
      List.count_append, List.count_eq_zero_of_not_mem opens,
      List.count_eq_zero_of_not_mem closes, Nat.zero_add, Nat.add_zero]

theorem thins_part (part : Part) : Thins part.text (textOf part.kept) := by
  have slashes : '\n' ∉ ['/', '/'] := by decide
  have opens : '\n' ∉ ['/', '*'] := by decide
  have closes : '\n' ∉ ['*', '/'] := by decide
  cases part with
  | plain c => exact thins_self (.plain c)
  | quoted content => exact thins_self (.quoted content)
  | openQuoted content => exact thins_self (.openQuoted content)
  | line content =>
      have thins := thins_lineEnds slashes List.not_mem_nil content
      rwa [List.append_nil] at thins
  | block content =>
      exact thins_lineEnds opens closes content
  | openBlock content =>
      have thins := thins_lineEnds opens List.not_mem_nil content
      rwa [List.append_nil] at thins

theorem thins_textOf (parts : List Part) : Thins (textOf parts) (textOf (keptOf parts)) := by
  induction parts with
  | nil => exact ⟨List.Sublist.slnil, rfl⟩
  | cons part parts inductionHypothesis =>
      rw [keptOf_cons, textOf_append, textOf_cons]
      exact (thins_part part).append inductionHypothesis

theorem keptOf_kept (part : Part) : keptOf part.kept = part.kept := by
  cases part <;> simp [Part.kept]

theorem keptOf_keptOf (parts : List Part) : keptOf (keptOf parts) = keptOf parts := by
  induction parts with
  | nil => rfl
  | cons part parts inductionHypothesis =>
      rw [keptOf_cons, keptOf_append, keptOf_kept, inductionHypothesis]

/-- What stays begins as the document does, unless the document begins with a comment. -/
theorem head?_keptOf {parts : List Part}
    (noMark : ∀ d ∈ (textOf parts).head?, d ≠ '/' ∧ d ≠ '*') :
    ∀ d ∈ (textOf (keptOf parts)).head?, d ≠ '/' ∧ d ≠ '*' := by
  cases parts with
  | nil => exact noMark
  | cons part parts =>
      cases part with
      | plain c => exact noMark
      | quoted content => exact noMark
      | openQuoted content => exact noMark
      | line content => exact absurd rfl (noMark '/' rfl).1
      | block content => exact absurd rfl (noMark '/' rfl).1
      | openBlock content => exact absurd rfl (noMark '/' rfl).1

theorem isDocument_lineEnds {parts : List Part} (document : IsDocument parts)
    (content : List Char) :
    IsDocument ((content.filter (· = '\n')).map .plain ++ parts) := by
  induction content with
  | nil => exact document
  | cons c content inductionHypothesis =>
      by_cases lineEnd : c = '\n'
      · rw [List.filter_cons_of_pos (by simpa using lineEnd), lineEnd]
        exact ⟨⟨by decide, fun slash => absurd slash (by decide)⟩, inductionHypothesis⟩
      · rwa [List.filter_cons_of_neg (by simpa using lineEnd)]

/-- What stays of a document is a document: nothing that is brought together starts a comment. -/
theorem isDocument_keptOf {parts : List Part} (document : IsDocument parts) :
    IsDocument (keptOf parts) := by
  induction parts with
  | nil => trivial
  | cons part parts inductionHypothesis =>
      obtain ⟨ends, document⟩ := document
      have further := inductionHypothesis document
      cases part with
      | plain c => exact ⟨⟨ends.1, fun slash => head?_keptOf (ends.2 slash)⟩, further⟩
      | quoted content => exact ⟨ends, further⟩
      | openQuoted content =>
          obtain ⟨brokenOff, finished⟩ := ends
          rw [textOf_eq_nil_iff] at finished
          subst finished
          exact ⟨⟨brokenOff, rfl⟩, trivial⟩
      | line content => exact isDocument_lineEnds further content
      | block content => exact isDocument_lineEnds further content
      | openBlock content => exact isDocument_lineEnds further content

/-- The removal of comments ends after one round, and takes nothing but comments out of the
document.  Every text can be taken apart into quoted texts, comments and single characters, and
however it is taken apart, quoted texts and single characters stay in full and comments leave
their line ends. -/
theorem strip_keeps_quotes_and_lines (source : String) :
    strip (strip source) = strip source ∧
      (strip source).toList.Sublist source.toList ∧
      (strip source).toList.count '\n' = source.toList.count '\n' ∧
      (∀ before c after before' after', (strip source).toList = before ++ c :: after →
        source.toList = before' ++ c :: after' → before.Sublist before' → after.Sublist after' →
        before.count '\n' = before'.count '\n') ∧
      (∃ parts, textOf parts = source.toList ∧ IsDocument parts) ∧
      ∀ parts, textOf parts = source.toList → IsDocument parts →
        (strip source).toList = textOf (keptOf parts) := by
  have kept {parts : List Part} (written : textOf parts = source.toList)
      (document : IsDocument parts) : strip source = String.ofList (textOf (keptOf parts)) := by
    rw [strip, ← written, stripFrom_textOf document]
  obtain ⟨parts, written, document⟩ := exists_parts source.toList
  have stripped := kept written document
  have thins : Thins source.toList (strip source).toList := by
    rw [stripped, String.toList_ofList, ← written]
    exact thins_textOf parts
  refine ⟨?_, thins.sublist, thins.lineEnds, fun _ _ _ _ _ => thins.same_line,
    ⟨parts, written, document⟩, ?_⟩
  · rw [stripped, strip, String.toList_ofList, stripFrom_textOf (isDocument_keptOf document),
      keptOf_keptOf]
  · intro others written' document'
    rw [kept written' document', String.toList_ofList]

/-- A price list with a mark inside quotes, next to comments of all sorts. -/
def priceParts : List Part :=
  [.quoted ['a', '/', '/', '\\', '"'], .plain '/', .plain ' ', .block ['\n', '"', '/', '*', '*'],
    .plain '/', .plain '1', .line [' ', '"', '*', '/'], .plain '\n', .openBlock ['/', '\n']]

def priceList : String :=
  "\"a//\\\"\"/ /*\n\"/***//1// \"*/\n/*/\n"

theorem priceList_keeps_quotes_and_lines :
    textOf priceParts = priceList.toList ∧ IsDocument priceParts ∧
      strip (strip priceList) = strip priceList ∧
      strip priceList = "\"a//\\\"\"/ \n/1\n\n" ∧
      "\"a//\\\"\"/ \n/".toList.Sublist "\"a//\\\"\"/ /*\n\"/***//".toList ∧
      "\"a//\\\"\"/ \n/".toList.count '\n' = "\"a//\\\"\"/ /*\n\"/***//".toList.count '\n' := by
  have written : textOf priceParts = priceList.toList := by decide +kernel
  have document : IsDocument priceParts := by decide +kernel
  obtain ⟨again, _, _, sameLine, _, kept⟩ := strip_keeps_quotes_and_lines priceList
  have stripped : strip priceList = "\"a//\\\"\"/ \n/1\n\n" := by
    rw [← String.toList_inj, kept priceParts written document]
    decide +kernel
  have front : "\"a//\\\"\"/ \n/".toList.Sublist "\"a//\\\"\"/ /*\n\"/***//".toList := by
    decide +kernel
  have back : "\n\n".toList.Sublist "// \"*/\n/*/\n".toList := by decide +kernel
  refine ⟨written, document, again, stripped, front, ?_⟩
  exact sameLine _ '1' _ _ _ (congrArg String.toList stripped) (by decide +kernel) front back

end Tabula.Comments
