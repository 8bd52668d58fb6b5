import Mathlib.Data.List.Nodup
import Mathlib.Logic.Relation
import Tabula.Linkage.Relation
import Tabula.Proofs.Linkage.Inventory

/-!
# Which tables relate to a schema

A schema relates to another when a chain of embeddings leads from it to one that embeds or
looks up the other.  The search for such a chain enters each schema at most once and hands
what it has not entered from field to field.  Nothing is lost by that: the search stops at
the first hit, and until then every schema that was entered has been searched to the end, or
is still being searched and will be.
-/

namespace Tabula

/-! ## What fields hold -/

/-- A field holds itself, and a list holds what its elements hold. -/
inductive Field.Holds : Field → Field → Prop where
  | self (field : Field) : Holds field field
  | element {head : FieldHead} {element part : Field} {count : Nat}
      (shape : head.shape = .list count) (further : Holds element part) :
      Holds (.withElement head element) part

namespace Field

/-- The field, or an element of a list, embeds the schema of a key. -/
def EmbedsAt (field : Field) (key : NameKey) : Prop :=
  ∃ part target, field.Holds part ∧ part.target? = some target ∧ NameKey.of target = key

/-- The field, or an element of a list, looks up rows of the table of a key. -/
def LooksUpAt (field : Field) (key : NameKey) : Prop :=
  ∃ part reference, field.Holds part ∧ part.reference? = some reference ∧
    NameKey.of reference.table = key

/-- The field, or an element of a list, embeds or looks up what goes by a key. -/
def Mentions (field : Field) (key : NameKey) : Prop :=
  field.EmbedsAt key ∨ field.LooksUpAt key

/-- Only the elements of a list matter for what it embeds and looks up. -/
theorem holds_list_iff {head : FieldHead} {element : Field} {count : Nat}
    (shape : head.shape = .list count) {part : Field} :
    (withElement head element).Holds part ↔
      part = withElement head element ∨ element.Holds part := by
  constructor
  · rintro (_ | ⟨_, further⟩)
    · exact .inl rfl
    · exact .inr further
  · rintro (rfl | further)
    · exact .self _
    · exact .element shape further

theorem embedsAt_list_iff {head : FieldHead} {element : Field} {count : Nat}
    (shape : head.shape = .list count) {key : NameKey} :
    (withElement head element).EmbedsAt key ↔ element.EmbedsAt key := by
  have bare : (withElement head element).target? = none := by
    rw [target?, Field.head, shape]
    rfl
  simp [EmbedsAt, holds_list_iff shape, or_and_right, exists_or, bare]

theorem looksUpAt_list_iff {head : FieldHead} {element : Field} {count : Nat}
    (shape : head.shape = .list count) {key : NameKey} :
    (withElement head element).LooksUpAt key ↔ element.LooksUpAt key := by
  have bare : (withElement head element).reference? = none := by
    rw [reference?, Field.head, shape]
    rfl
  simp [LooksUpAt, holds_list_iff shape, or_and_right, exists_or, bare]

/-- A field that is not a list with elements holds nothing but itself. -/
def Lone (field : Field) : Prop :=
  ∀ part, field.Holds part → part = field

theorem lone_single (head : FieldHead) : (single head).Lone := by
  rintro part ⟨⟩
  rfl

theorem lone_withElement {head : FieldHead} {element : Field}
    (other : ∀ count, head.shape ≠ .list count) : (withElement head element).Lone := by
  rintro part (_ | ⟨shape, _⟩)
  · rfl
  · exact absurd shape (other _)

theorem Lone.embedsAt_iff {field : Field} (lone : field.Lone) {key : NameKey} :
    field.EmbedsAt key ↔ ∃ target, field.target? = some target ∧ NameKey.of target = key := by
  constructor
  · rintro ⟨part, target, holds, embeds, same⟩
    rw [lone part holds] at embeds
    exact ⟨target, embeds, same⟩
  · rintro ⟨target, embeds, same⟩
    exact ⟨field, target, .self field, embeds, same⟩

theorem Lone.looksUpAt_iff {field : Field} (lone : field.Lone) {key : NameKey} :
    field.LooksUpAt key ↔
      ∃ reference, field.reference? = some reference ∧ NameKey.of reference.table = key := by
  constructor
  · rintro ⟨part, reference, holds, refers, same⟩
    rw [lone part holds] at refers
    exact ⟨reference, refers, same⟩
  · rintro ⟨reference, refers, same⟩
    exact ⟨field, reference, .self field, refers, same⟩

end Field

namespace Linkage

variable {linkage : Linkage} {wanted : NameKey}

/-! ## What the search of a field comes to -/

section

variable {enter : NameKey → List NameKey → Bool × List NameKey} {closed : List NameKey}

/-- The search of a field ends at once, with or without a hit, or enters the one schema that
the field embeds. -/
inductive Searched (enter : NameKey → List NameKey → Bool × List NameKey) (wanted : NameKey)
    (closed : List NameKey) (field : Field) : Bool × List NameKey → Prop where
  | hit (mentions : field.Mentions wanted) : Searched enter wanted closed field (true, closed)
  | miss (bare : ∀ key, ¬field.EmbedsAt key) (silent : ¬field.LooksUpAt wanted) :
      Searched enter wanted closed field (false, closed)
  | enters (key : NameKey) (embeds : ∀ other, field.EmbedsAt other ↔ key = other)
      (different : key ≠ wanted) (silent : ¬field.LooksUpAt wanted) :
      Searched enter wanted closed field (enter key closed)

/-- A field that embeds nothing is judged by what it looks up. -/
theorem searched_of_reference {field : Field} (lone : field.Lone)
    (bare : field.target? = none) :
    Searched enter wanted closed field
      (match field.reference? with
        | some reference => NameKey.of reference.table = wanted
        | none => false, closed) := by
  have embedsNothing : ∀ key, ¬field.EmbedsAt key := by simp [lone.embedsAt_iff, bare]
  cases refers : field.reference? with
  | none => exact .miss embedsNothing (by simp [lone.looksUpAt_iff, refers])
  | some reference =>
      by_cases same : NameKey.of reference.table = wanted
      · simp only [same, decide_true]
        exact .hit (.inr (lone.looksUpAt_iff.mpr ⟨reference, refers, same⟩))
      · simp only [same, decide_false]
        exact .miss embedsNothing (by simp [lone.looksUpAt_iff, refers, same])

theorem searched_headRelates {field : Field} (lone : field.Lone) :
    Searched enter wanted closed field (headRelates enter wanted closed field.head) := by
  have plain : field.head.shape.target? = none → Searched enter wanted closed field
      (match field.head.shape.reference? with
        | some reference => NameKey.of reference.table = wanted
        | none => false, closed) :=
    searched_of_reference lone
  unfold headRelates
  cases shape : field.head.shape with
  | scalar | lookup | list | unresolved =>
      rw [shape] at plain
      exact plain rfl
  | embedded target =>
      have refers : field.reference? = none := by rw [Field.reference?, shape]; rfl
      have embeds : field.target? = target := by rw [Field.target?, shape]; rfl
      have silent : ¬field.LooksUpAt wanted := by simp [lone.looksUpAt_iff, refers]
      cases target with
      | none => exact .miss (by simp [lone.embedsAt_iff, embeds]) silent
      | some target =>
          by_cases same : NameKey.of target = wanted
          · simp only [same, if_true]
            exact .hit (.inl (lone.embedsAt_iff.mpr ⟨target, embeds, same⟩))
          · simp only [same, if_false]
            exact .enters _ (by simp [lone.embedsAt_iff, embeds]) same silent

theorem searched_fieldRelates (field : Field) :
    Searched enter wanted closed field (fieldRelates enter wanted closed field) := by
  induction field with
  | single head => exact searched_headRelates (Field.lone_single head)
  | withElement head element inductionHypothesis =>
      unfold fieldRelates
      split
      · rename_i count shape
        generalize fieldRelates enter wanted closed element = outcome at inductionHypothesis
        cases inductionHypothesis with
        | hit mentions =>
            refine .hit ?_
            rwa [Field.Mentions, Field.embedsAt_list_iff shape, Field.looksUpAt_list_iff shape]
        | miss bare silent =>
            refine .miss ?_ ?_
            · simpa only [Field.embedsAt_list_iff shape] using bare
            · rwa [Field.looksUpAt_list_iff shape]
        | enters key embeds different silent =>
            refine .enters key ?_ different ?_
            · simpa only [Field.embedsAt_list_iff shape] using embeds
            · rwa [Field.looksUpAt_list_iff shape]
      · rename_i other
        exact searched_headRelates (Field.lone_withElement other)

end

/-! ## Searching member after member -/

section

variable {σ α : Type} {test : σ → α → Bool × σ}

/-- A hit is the hit of a member. -/
theorem exists_of_anyFrom {state : σ} {members : List α}
    (found : (anyFrom test state members).1 = true) :
    ∃ member ∈ members, ∃ before, (test before member).1 = true := by
  induction members generalizing state with
  | nil => cases found
  | cons member members inductionHypothesis =>
      rw [anyFrom] at found
      split at found
      · rename_i here
        exact ⟨member, List.mem_cons_self, state, by rw [here]⟩
      · obtain ⟨other, among, hit⟩ := inductionHypothesis found
        exact ⟨other, List.mem_cons_of_mem _ among, hit⟩

end

/-! ## Chains of embeddings -/

/-- The schema embeds another one that is registered. -/
def Opens (linkage : Linkage) (outer inner : Schema) : Prop :=
  ∃ field ∈ outer.fields, ∃ key, field.EmbedsAt key ∧ linkage.schemas.find? key = some inner

/-- A chain of embeddings leads from the schema to one with a field that embeds or looks up
what goes by the wanted key. -/
def Relates (linkage : Linkage) (wanted : NameKey) (schema : Schema) : Prop :=
  ∃ last, Relation.ReflTransGen linkage.Opens schema last ∧
    ∃ field ∈ last.fields, field.Mentions wanted

/-! ## What is found is there -/

/-- The field mentions what is wanted, or embeds a schema that relates to it. -/
def LeadsField (linkage : Linkage) (wanted : NameKey) (field : Field) : Prop :=
  field.Mentions wanted ∨
    ∃ key schema, field.EmbedsAt key ∧ linkage.schemas.find? key = some schema ∧
      linkage.Relates wanted schema

theorem relates_of_leadsField {schema : Schema} {field : Field}
    (member : field ∈ schema.fields) (leads : linkage.LeadsField wanted field) :
    linkage.Relates wanted schema := by
  rcases leads with mentions | ⟨key, inner, embeds, found, last, opens, further⟩
  · exact ⟨schema, .refl, field, member, mentions⟩
  · exact ⟨last, .head ⟨field, member, key, embeds, found⟩ opens, further⟩

/-- A search that only finds what is there makes one for fields that does, too. -/
theorem leadsField_of_fieldRelates {enter : NameKey → List NameKey → Bool × List NameKey}
    (sound : ∀ key closed, (enter key closed).1 = true →
      ∃ schema, linkage.schemas.find? key = some schema ∧ linkage.Relates wanted schema)
    {closed : List NameKey} {field : Field}
    (found : (fieldRelates enter wanted closed field).1 = true) :
    linkage.LeadsField wanted field := by
  have searched : Searched enter wanted closed field
      (Linkage.fieldRelates enter wanted closed field) := searched_fieldRelates field
  generalize fieldRelates enter wanted closed field = outcome at found searched
  cases searched with
  | hit mentions => exact .inl mentions
  | miss _ _ => cases found
  | enters key embeds _ _ =>
      obtain ⟨schema, held, relates⟩ := sound key closed found
      exact .inr ⟨key, schema, (embeds key).mpr rfl, held, relates⟩

theorem relates_of_anyFrom {enter : NameKey → List NameKey → Bool × List NameKey}
    (sound : ∀ key closed, (enter key closed).1 = true →
      ∃ schema, linkage.schemas.find? key = some schema ∧ linkage.Relates wanted schema)
    {closed : List NameKey} {schema : Schema}
    (found : (anyFrom (fieldRelates enter wanted) closed schema.fields).1 = true) :
    linkage.Relates wanted schema := by
  obtain ⟨field, member, _, hit⟩ := exists_of_anyFrom found
  exact relates_of_leadsField member (leadsField_of_fieldRelates sound hit)

theorem relates_of_schemaRelates {depth : Nat} {key : NameKey} {closed : List NameKey}
    (found : (linkage.schemaRelates wanted depth key closed).1 = true) :
    ∃ schema, linkage.schemas.find? key = some schema ∧ linkage.Relates wanted schema := by
  induction depth generalizing key closed with
  | zero => cases found
  | succ depth inductionHypothesis =>
      rw [schemaRelates] at found
      split at found
      · cases found
      · rename_i schema held
        split at found
        · refine ⟨schema, held, relates_of_anyFrom ?_ found⟩
          exact fun _ _ => inductionHypothesis
        · cases found

/-! ## What is there is found -/

/-- Nothing wanted is left in the field: it mentions nothing wanted, and no schema that it
embeds is left to be entered. -/
def Cleared (linkage : Linkage) (wanted : NameKey) (rest : List NameKey) (field : Field) :
    Prop :=
  ¬field.Mentions wanted ∧
    ∀ key, field.EmbedsAt key → linkage.schemas.contains key = true → key ∉ rest

/-- A search without a hit leaves some of the schemas that it could enter, and nothing
wanted in the fields of those that it entered. -/
structure Exhausts (linkage : Linkage) (wanted : NameKey) (closed rest : List NameKey) :
    Prop where
  sublist : rest.Sublist closed
  cleared : ∀ key ∈ closed, key ∉ rest → ∀ schema, linkage.schemas.find? key = some schema →
    ∀ field ∈ schema.fields, linkage.Cleared wanted rest field

theorem Cleared.mono {rest further : List NameKey} {field : Field}
    (cleared : linkage.Cleared wanted rest field) (fewer : further.Sublist rest) :
    linkage.Cleared wanted further field := by
  refine ⟨cleared.1, ?_⟩
  intro key embeds known left
  exact cleared.2 key embeds known (fewer.subset left)

theorem Exhausts.refl (closed : List NameKey) : linkage.Exhausts wanted closed closed where
  sublist := .refl closed
  cleared _ member entered := absurd member entered

theorem Exhausts.trans {closed middle rest : List NameKey}
    (first : linkage.Exhausts wanted closed middle)
    (second : linkage.Exhausts wanted middle rest) : linkage.Exhausts wanted closed rest where
  sublist := second.sublist.trans first.sublist
  cleared := by
    intro key member entered schema found field among
    by_cases left : key ∈ middle
    · exact second.cleared key left entered schema found field among
    · exact (first.cleared key member left schema found field among).mono second.sublist

/-- Whatever enters schemas keeps count of them, as long as few enough are left. -/
def Keeps (linkage : Linkage) (wanted : NameKey) (limit : Nat)
    (enter : NameKey → List NameKey → Bool × List NameKey) : Prop :=
  ∀ key closed rest, closed.length ≤ limit → enter key closed = (false, rest) →
    linkage.Exhausts wanted closed rest ∧
      (linkage.schemas.contains key = true → key ∉ rest)

theorem Keeps.fieldRelates {limit : Nat}
    {enter : NameKey → List NameKey → Bool × List NameKey}
    (keeps : linkage.Keeps wanted limit enter) {closed rest : List NameKey} {field : Field}
    (few : closed.length ≤ limit)
    (missed : fieldRelates enter wanted closed field = (false, rest)) :
    linkage.Exhausts wanted closed rest ∧ linkage.Cleared wanted rest field := by
  have searched : Searched enter wanted closed field
      (Linkage.fieldRelates enter wanted closed field) := searched_fieldRelates field
  generalize Linkage.fieldRelates enter wanted closed field = outcome at missed searched
  cases searched with
  | hit _ => cases missed
  | miss bare silent =>
      cases missed
      refine ⟨.refl closed, ?_, ?_⟩
      · exact not_or.mpr ⟨bare wanted, silent⟩
      · intro key embeds
        exact absurd embeds (bare key)
  | enters key embeds different silent =>
      obtain ⟨exhausts, entered⟩ := keeps key closed rest few missed
      refine ⟨exhausts, ?_, ?_⟩
      · exact not_or.mpr ⟨fun same => different ((embeds wanted).mp same), silent⟩
      · intro other same known
        rw [← (embeds other).mp same] at known ⊢
        exact entered known

theorem Keeps.anyFrom {limit : Nat}
    {enter : NameKey → List NameKey → Bool × List NameKey}
    (keeps : linkage.Keeps wanted limit enter) {closed rest : List NameKey}
    {fields : List Field} (few : closed.length ≤ limit)
    (missed : anyFrom (Linkage.fieldRelates enter wanted) closed fields = (false, rest)) :
    linkage.Exhausts wanted closed rest ∧
      ∀ field ∈ fields, linkage.Cleared wanted rest field := by
  induction fields generalizing closed with
  | nil =>
      cases missed
      exact ⟨.refl _, List.forall_mem_nil _⟩
  | cons field fields inductionHypothesis =>
      rw [Linkage.anyFrom] at missed
      split at missed
      · cases missed
      · rename_i middle here
        obtain ⟨first, cleared⟩ := keeps.fieldRelates few here
        obtain ⟨second, others⟩ :=
          inductionHypothesis (Nat.le_trans first.sublist.length_le few) missed
        exact ⟨first.trans second,
          List.forall_mem_cons.mpr ⟨cleared.mono second.sublist, others⟩⟩

/-- A search that may enter as many schemas as are left keeps count of them. -/
theorem keeps_schemaRelates (depth : Nat) :
    linkage.Keeps wanted depth (linkage.schemaRelates wanted depth) := by
  induction depth with
  | zero =>
      intro key closed rest few missed
      cases missed
      refine ⟨.refl closed, ?_⟩
      rw [List.eq_nil_of_length_eq_zero (Nat.le_zero.mp few)]
      exact fun _ => List.not_mem_nil
  | succ depth inductionHypothesis =>
      intro key closed rest few missed
      rw [schemaRelates] at missed
      split at missed
      · rename_i absent
        cases missed
        refine ⟨.refl closed, ?_⟩
        intro known
        rw [Registry.contains, absent] at known
        cases known
      · rename_i schema found
        split at missed
        · rename_i left
          have fewer := length_without_lt left
          obtain ⟨exhausts, cleared⟩ := inductionHypothesis.anyFrom (by omega) missed
          refine ⟨⟨exhausts.sublist.trans List.filter_sublist, ?_⟩, ?_⟩
          · intro other member entered target otherFound
            by_cases same : other = key
            · rw [same, found, Option.some.injEq] at otherFound
              exact otherFound ▸ cleared
            · exact exhausts.cleared other (mem_without.mpr ⟨member, same⟩) entered target
                otherFound
          · intro _ inside
            exact (mem_without.mp (exhausts.sublist.subset inside)).2 rfl
        · rename_i entered
          cases missed
          exact ⟨.refl closed, fun _ => entered⟩

/-- Without a hit, nothing wanted is left in any schema that the embeddings lead to. -/
theorem cleared_of_opens {rest : List NameKey} {schema last : Schema}
    (exhausts : linkage.Exhausts wanted linkage.schemas.keys rest)
    (here : ∀ field ∈ schema.fields, linkage.Cleared wanted rest field)
    (opens : Relation.ReflTransGen linkage.Opens schema last) :
    ∀ field ∈ last.fields, linkage.Cleared wanted rest field := by
  induction opens with
  | refl => exact here
  | tail _ step inductionHypothesis =>
      rcases step with ⟨field, member, key, embeds, found⟩
      have known : linkage.schemas.contains key = true := by
        rw [Registry.contains, found]
        rfl
      have entered := (inductionHypothesis field member).2 key embeds known
      exact exhausts.cleared key (Registry.mem_keys_iff.mpr known) entered _ found

/-- The search finds exactly what chains of embeddings lead to. -/
theorem relatesTo_iff {schema : Schema} :
    linkage.relatesTo wanted schema = true ↔ linkage.Relates wanted schema := by
  constructor
  · intro found
    exact relates_of_anyFrom (fun _ _ => relates_of_schemaRelates) found
  · rintro ⟨last, opens, field, member, mentions⟩
    by_contra unfound
    have missed : anyFrom
        (Linkage.fieldRelates (linkage.schemaRelates wanted linkage.schemas.keys.length) wanted)
          linkage.schemas.keys schema.fields = (false, _) :=
      Prod.ext (Bool.eq_false_iff.mpr unfound) rfl
    obtain ⟨exhausts, cleared⟩ := (keeps_schemaRelates _).anyFrom (Nat.le_refl _) missed
    exact (cleared_of_opens exhausts cleared opens field member).1 mentions

/-! ## How deep the search goes -/

/-- Searches a schema as before.  A search that enters schemas too deeply is given up with
the last resort. -/
def schemaRelatesWithin (linkage : Linkage) (lastResort : Bool × List NameKey)
    (wanted : NameKey) : Nat → NameKey → List NameKey → Bool × List NameKey
  | 0, _, _ => lastResort
  | depth + 1, key, closed =>
    match linkage.schemas.find? key with
    | none => (false, closed)
    | some schema =>
      if key ∈ closed then
        anyFrom (fieldRelates (linkage.schemaRelatesWithin lastResort wanted depth) wanted)
          (without closed key) schema.fields
      else (false, closed)

/-- The schema relates to the wanted one, by a search of bounded depth. -/
def relatesToWithin (linkage : Linkage) (lastResort : Bool × List NameKey) (depth : Nat)
    (wanted : NameKey) (schema : Schema) : Bool :=
  (anyFrom (fieldRelates (linkage.schemaRelatesWithin lastResort wanted depth) wanted)
    linkage.schemas.keys schema.fields).1

theorem Keeps.mono {limit fewer : Nat}
    {enter : NameKey → List NameKey → Bool × List NameKey}
    (keeps : linkage.Keeps wanted limit enter) (less : fewer ≤ limit) :
    linkage.Keeps wanted fewer enter :=
  fun key closed rest few => keeps key closed rest (Nat.le_trans few less)

section

variable {first second : NameKey → List NameKey → Bool × List NameKey}

theorem headRelates_congr {closed : List NameKey}
    (agree : ∀ key, first key closed = second key closed) (head : FieldHead) :
    headRelates first wanted closed head = headRelates second wanted closed head := by
  unfold headRelates
  simp only [agree]

theorem fieldRelates_congr {closed : List NameKey}
    (agree : ∀ key, first key closed = second key closed) (field : Field) :
    fieldRelates first wanted closed field = fieldRelates second wanted closed field := by
  induction field with
  | single head => exact headRelates_congr agree head
  | withElement head element inductionHypothesis =>
      unfold fieldRelates
      simp only [inductionHypothesis, headRelates_congr agree]

/-- Fields are searched in the same way when schemas are, as long as few enough are left. -/
theorem Keeps.anyFrom_congr {limit : Nat} (keeps : linkage.Keeps wanted limit second)
    (agree : ∀ key closed, closed.length ≤ limit → first key closed = second key closed)
    {closed : List NameKey} (few : closed.length ≤ limit) (fields : List Field) :
    Linkage.anyFrom (Linkage.fieldRelates first wanted) closed fields =
      Linkage.anyFrom (Linkage.fieldRelates second wanted) closed fields := by
  induction fields generalizing closed with
  | nil => rfl
  | cons field fields inductionHypothesis =>
      rw [Linkage.anyFrom, Linkage.anyFrom,
        fieldRelates_congr (fun key => agree key closed few)]
      cases outcome : Linkage.fieldRelates second wanted closed field with
      | mk hit middle =>
          cases hit with
          | true => rfl
          | false =>
              obtain ⟨exhausts, _⟩ := keeps.fieldRelates few outcome
              exact inductionHypothesis (Nat.le_trans exhausts.sublist.length_le few)

end

/-- A search that may enter more schemas than are left never comes to its last resort. -/
theorem schemaRelatesWithin_eq_schemaRelates (lastResort : Bool × List NameKey)
    {depth limit : Nat} {closed : List NameKey} (enough : closed.length < depth)
    (few : closed.length ≤ limit) (key : NameKey) :
    linkage.schemaRelatesWithin lastResort wanted depth key closed =
      linkage.schemaRelates wanted limit key closed := by
  induction depth generalizing limit closed key with
  | zero => exact absurd enough (Nat.not_lt_zero _)
  | succ depth inductionHypothesis =>
      cases limit with
      | zero =>
          rw [List.eq_nil_of_length_eq_zero (Nat.le_zero.mp few), schemaRelatesWithin,
            schemaRelates]
          split
          · rfl
          · simp
      | succ limit =>
          rw [schemaRelatesWithin, schemaRelates]
          cases linkage.schemas.find? key with
          | none => rfl
          | some schema =>
              by_cases left : key ∈ closed
              · have fewer := length_without_lt left
                simp only [left, if_true]
                have keeps : linkage.Keeps wanted (without closed key).length
                    (linkage.schemaRelates wanted limit) :=
                  (keeps_schemaRelates limit).mono (by omega)
                refine keeps.anyFrom_congr ?_ (Nat.le_refl _) schema.fields
                intro other rest size
                exact inductionHypothesis (by omega) (by omega) other
              · simp only [left, if_false]

theorem relatesToWithin_eq_relatesTo (lastResort : Bool × List NameKey) {depth : Nat}
    (enough : linkage.schemas.size < depth) (schema : Schema) :
    linkage.relatesToWithin lastResort depth wanted schema =
      linkage.relatesTo wanted schema := by
  have size : linkage.schemas.keys.length = linkage.schemas.size := List.length_map _
  have searches : ∀ key closed, closed.length ≤ linkage.schemas.keys.length →
      linkage.schemaRelatesWithin lastResort wanted depth key closed =
        linkage.schemaRelates wanted linkage.schemas.keys.length key closed := by
    intro key closed few
    exact schemaRelatesWithin_eq_schemaRelates lastResort (by omega) few key
  rw [relatesToWithin, relatesTo,
    (keeps_schemaRelates _).anyFrom_congr searches (Nat.le_refl _)]

/-! ## The tables of related schemas -/

/-- The schemas that relate to the wanted one, in order of registration. -/
def relating (linkage : Linkage) (wanted : NameKey) : List Schema :=
  linkage.schemas.values.filter (linkage.relatesTo wanted)

theorem mem_relating_iff {schema : Schema} :
    schema ∈ linkage.relating wanted ↔
      schema ∈ linkage.schemas.values ∧ linkage.Relates wanted schema := by
  rw [relating, List.mem_filter, relatesTo_iff]

theorem relatedPartialTables_eq {tables : List Table} (registered : linkage.Registered tables)
    (name : String) :
    linkage.relatedPartialTables name =
      (linkage.relating (.of name)).flatMap fun schema => linkage.partialTables schema.name := by
  rw [relatedPartialTables, relating, Registry.values, List.filter_map, List.flatMap_map]
  apply List.flatMap_congr
  rintro ⟨key, schema⟩ member
  have found := Registry.find?_eq_some_iff.mpr (List.mem_of_mem_filter member)
  rw [partialTables, registered.schemaNamed key schema found]

/-- No table is a partial table of two registered schemas. -/
theorem Registered.nodup_flatMap_partialTables {tables : List Table}
    (registered : linkage.Registered tables) {schemas : List Schema}
    (among : schemas.Sublist linkage.schemas.values) :
    (schemas.flatMap fun schema => linkage.partialTables schema.name).Nodup := by
  have apart : (schemas.map fun schema => NameKey.of schema.name).Nodup := by
    refine List.Nodup.sublist (among.map _) ?_
    rw [registered.map_key_values]
    exact linkage.schemas.distinct
  rw [List.Nodup, List.pairwise_map] at apart
  rw [List.nodup_flatMap]
  constructor
  · intro schema _
    rw [partialTables, registered.partialTablesAt_eq]
    exact (List.Nodup.of_map _ registered.distinct).filter _
  · refine apart.imp ?_
    intro first second different table inFirst inSecond
    have named : ∀ schema : Schema, table ∈ linkage.partialTables schema.name →
        NameKey.of table.schema.name = NameKey.of schema.name := by
      intro schema member
      rw [partialTables, registered.partialTablesAt_eq, tablesOver, List.mem_filter,
        decide_eq_true_eq] at member
      exact member.2
    exact different ((named first inFirst).symm.trans (named second inSecond))

/-- The tables related to a name are the partial tables of the registered schemas from
which a chain of embeddings leads to a field that embeds or looks up what goes by the name.
They come in the order in which the schemas were registered, and for one schema in the order
of the tables, each of them once.  The search enters no more schemas than there are. -/
theorem related_tables_are_reached {schemas : List Schema} {tables : List Table}
    (linked : (link schemas tables).result = .ok linkage) (name : String) :
    (∀ lastResort depth schema, linkage.schemas.size < depth →
      linkage.relatesToWithin lastResort depth (.of name) schema =
        linkage.relatesTo (.of name) schema) ∧
    (∃ related : List Schema, related.Sublist linkage.schemas.values ∧
      (∀ schema ∈ linkage.schemas.values,
        schema ∈ related ↔ linkage.Relates (.of name) schema) ∧
      linkage.relatedPartialTables name =
        related.flatMap fun schema => linkage.partialTables schema.name) ∧
    (∀ schema, (linkage.partialTables schema).Sublist linkage.tables.values) ∧
    (linkage.relatedPartialTables name).Nodup := by
  have known := registered_of_link linked
  have listed := relatedPartialTables_eq known name
  refine ⟨?_, ⟨linkage.relating (.of name), List.filter_sublist, ?_, listed⟩, ?_, ?_⟩
  · intro lastResort depth schema enough
    exact relatesToWithin_eq_relatesTo lastResort enough schema
  · intro schema member
    rw [mem_relating_iff, and_iff_right member]
  · intro schema
    rw [partialTables, known.partialTablesAt_eq, values_tables_of_link linked]
    exact List.filter_sublist
  · rw [listed]
    exact known.nodup_flatMap_partialTables List.filter_sublist

/-! ## Concrete schemas -/

/-- Coins, shops that may have purses, purses that may hold purses and coins, and chests. -/
def purseSchemas : List Schema :=
  [{ name := "Coin"
     fields := [.ofKind "label" (.scalar .text)] },
    { name := "Shop"
      fields := [.ofKind "label" (.scalar .text), .list "purses" (.embedded "purse" "PURSE") 0]
      distinct := by decide +kernel },
    { name := "Purse"
      fields :=
        [.ofKind "label" (.scalar .text),
        .list "purses" (.list "row" (.embedded "purse" "Purse") 1) 0,
        .list "coins" (.lookup "coin" ⟨"COIN", "label", "label", none⟩) 0]
      distinct := by decide +kernel },
    { name := "Chest"
      fields := [.ofKind "label" (.scalar .text)] }]

/-- Labels and nothing else. -/
def labelSchema : FlatSchema where
  schema := { name := "Label", fields := [.ofKind "label" (.scalar .text)] }
  flat := by decide
  counted := by decide

/-- A table of labels over a schema of the given name. -/
def labels (name schema : String) : Table :=
  .ofSchema name { labelSchema with schema := { labelSchema.schema with name := schema } }

/-- Two tables of purses, one of chests and one of shops. -/
def purseTables : List Table :=
  [labels "Old" "Purse", labels "Oak" "Chest", labels "Corner" "shop", labels "New" "purse"]

theorem purse_tables_are_reached :
    ∃ linkage, (link purseSchemas purseTables).result = .ok linkage ∧
      (linkage.relatedPartialTables "coin").map Table.name = ["Corner", "Old", "New"] ∧
      (linkage.relatedPartialTables "coin").Nodup ∧
      ∀ table ∈ linkage.relatedPartialTables "coin", ∃ schema ∈ linkage.schemas.values,
        table ∈ linkage.partialTables schema.name ∧ linkage.Relates (.of "coin") schema := by
  have computed : (do
      let linkage ← (link purseSchemas purseTables).result
      return (linkage.relatedPartialTables "coin").map Table.name) =
      .ok ["Corner", "Old", "New"] := by
    decide +kernel
  simp only [bind_eq_ok_iff, pure_eq_ok_iff] at computed
  rcases computed with ⟨linkage, linked, names⟩
  obtain ⟨_, ⟨related, among, relates, listed⟩, _, once⟩ :=
    related_tables_are_reached linked "coin"
  refine ⟨linkage, linked, names, once, ?_⟩
  intro table member
  rw [listed, List.mem_flatMap] at member
  rcases member with ⟨schema, here, holds⟩
  have registered := among.subset here
  exact ⟨schema, registered, holds, (relates schema registered).mp here⟩

end Linkage

end Tabula
