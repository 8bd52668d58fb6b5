import Mathlib.Data.Finset.Card
import Tabula.Name

/-!
# Sets of names and their keys

A set of names holds a spelling for each of its keys, and no key twice.  So it is known but
for spelling and order by the finite set of its keys, and two sets are the same when those
are equal: of two such sets of one size, neither can hold a key that the other does not.
Spelling and order are those of the names a set was gathered from: of each key the first
spelling, at the place where the key came up first.
-/

namespace Tabula

namespace NameSet

/-- The keys of the names. -/
def keySet (set : NameSet) : Finset NameKey :=
  (set.names.map NameKey.of).toFinset

theorem mem_keySet {set : NameSet} {key : NameKey} :
    key ∈ set.keySet ↔ key ∈ set.names.map NameKey.of :=
  List.mem_toFinset

/-- There is one key for each name. -/
theorem card_keySet (set : NameSet) : set.keySet.card = set.size := by
  rw [keySet, List.toFinset_card_of_nodup set.distinct, List.length_map, size]

theorem keySet_subset_iff {left right : NameSet} :
    left.keySet ⊆ right.keySet ↔ ∀ name ∈ left.names, right.contains name = true := by
  simp only [Finset.subset_iff, mem_keySet, List.forall_mem_map, contains_iff]

/-- Sets are the same when they hold the same keys. -/
theorem same_iff {left right : NameSet} :
    left.same right = true ↔ left.keySet = right.keySet := by
  rw [same, Bool.and_eq_true, decide_eq_true_eq, List.all_eq_true, ← card_keySet, ← card_keySet,
    ← keySet_subset_iff]
  constructor
  · rintro ⟨sizes, inside⟩
    exact Finset.eq_of_subset_of_card_le inside sizes.ge
  · intro equal
    exact ⟨congrArg Finset.card equal, equal.subset⟩

theorem contains_of_mem {set : NameSet} {name : String} (member : name ∈ set.names) :
    set.contains name = true :=
  contains_iff.mpr (List.mem_map_of_mem member)

/-- The keys are known from the names that are found in the set. -/
theorem keySet_eq_iff {left right : NameSet} :
    left.keySet = right.keySet ↔ ∀ name, left.contains name = right.contains name := by
  constructor
  · intro equal name
    rw [Bool.eq_iff_iff, contains_iff, contains_iff, ← mem_keySet, ← mem_keySet, equal]
  · intro agree
    apply Finset.Subset.antisymm
    · exact keySet_subset_iff.mpr fun name member => agree name ▸ contains_of_mem member
    · exact keySet_subset_iff.mpr fun name member => agree name ▸ contains_of_mem member

theorem same_self (set : NameSet) : set.same set = true :=
  same_iff.mpr rfl

/-- The order of the names does not matter to the keys. -/
theorem keySet_eq_of_perm {left right : NameSet} (reordered : left.names.Perm right.names) :
    left.keySet = right.keySet :=
  List.toFinset_eq_of_perm _ _ (reordered.map NameKey.of)

/-! ## First spellings -/

/-- The place of the first spelling of a name in a list; past the end when there is none. -/
def firstPlace (names : List String) (name : String) : Nat :=
  names.findIdx fun spelling => NameKey.of spelling = NameKey.of name

theorem firstPlace_lt_iff {names : List String} {name : String} :
    firstPlace names name < names.length ↔ NameKey.of name ∈ names.map NameKey.of := by
  simp only [firstPlace, List.findIdx_lt_length, decide_eq_true_eq, List.mem_map]

/-- What comes later does not move the first spelling. -/
theorem firstPlace_append_of_mem {names : List String} {name : String}
    (spelled : NameKey.of name ∈ names.map NameKey.of) (more : List String) :
    firstPlace (names ++ more) name = firstPlace names name := by
  have inside := firstPlace_lt_iff.mpr spelled
  rw [firstPlace, List.findIdx_append]
  exact if_pos inside

/-- A name without a spelling so far is spelled first where it is added. -/
theorem firstPlace_append_self {names : List String} {name : String}
    (unspelled : NameKey.of name ∉ names.map NameKey.of) :
    firstPlace (names ++ [name]) name = names.length := by
  have outside := mt firstPlace_lt_iff.mp unspelled
  rw [firstPlace, List.findIdx_append]
  exact (if_neg outside).trans (by simp)

/-- What a set keeps of the names that were inserted into it: of each key the first spelling,
in the order in which the keys came up. -/
structure KeepsFirst (inserted : List String) (set : NameSet) : Prop where
  held (name : String) : set.contains name = true ↔ NameKey.of name ∈ inserted.map NameKey.of
  distinct : set.names.Pairwise fun earlier later => NameKey.of earlier ≠ NameKey.of later
  spelled : ∀ name ∈ set.names, inserted[firstPlace inserted name]? = some name
  ordered : set.names.Pairwise fun earlier later =>
    firstPlace inserted earlier < firstPlace inserted later
  counted : set.size = (inserted.map NameKey.of).toFinset.card

/-- A set that holds the keys of a list has as many names as there are different keys. -/
theorem size_eq_card_of_held {inserted : List String} {set : NameSet}
    (held : ∀ name, set.contains name = true ↔ NameKey.of name ∈ inserted.map NameKey.of) :
    set.size = (inserted.map NameKey.of).toFinset.card := by
  have keys : set.keySet = (inserted.map NameKey.of).toFinset := by
    ext key
    rw [mem_keySet, List.mem_toFinset]
    constructor
    · intro member
      obtain ⟨name, among, rfl⟩ := List.mem_map.mp member
      exact (held name).mp (contains_of_mem among)
    · intro member
      obtain ⟨name, _, rfl⟩ := List.mem_map.mp member
      exact contains_iff.mp ((held name).mpr member)
  rw [← card_keySet, keys]

theorem keepsFirst_empty : KeepsFirst [] empty where
  held name := by simp
  distinct := .nil
  spelled := by simp
  ordered := .nil
  counted := rfl

namespace KeepsFirst

variable {inserted : List String} {set : NameSet}

theorem mem_keys (keeps : KeepsFirst inserted set) {name : String} (member : name ∈ set.names) :
    NameKey.of name ∈ inserted.map NameKey.of :=
  (keeps.held name).mp (contains_of_mem member)

theorem spelled_append (keeps : KeepsFirst inserted set) (more : List String) :
    ∀ name ∈ set.names, (inserted ++ more)[firstPlace (inserted ++ more) name]? = some name := by
  intro name member
  have spelled := keeps.mem_keys member
  rw [firstPlace_append_of_mem spelled,
    List.getElem?_append_left (firstPlace_lt_iff.mpr spelled)]
  exact keeps.spelled name member

theorem ordered_append (keeps : KeepsFirst inserted set) (more : List String) :
    set.names.Pairwise fun earlier later =>
      firstPlace (inserted ++ more) earlier < firstPlace (inserted ++ more) later := by
  apply keeps.ordered.imp_of_mem
  intro earlier later earlierMember laterMember before
  rw [firstPlace_append_of_mem (keeps.mem_keys earlierMember),
    firstPlace_append_of_mem (keeps.mem_keys laterMember)]
  exact before

/-- One more insertion: a name that is held leaves the names as they are, and a new one comes
last among them as it does among the inserted. -/
theorem insert (keeps : KeepsFirst inserted set) (name : String) :
    KeepsFirst (inserted ++ [name]) (set.insert name) := by
  have held (other : String) : (set.insert name).contains other = true ↔
      NameKey.of other ∈ (inserted ++ [name]).map NameKey.of := by
    rw [contains_insert, Bool.or_eq_true, decide_eq_true_eq, keeps.held, List.map_append,
      List.mem_append, List.map_singleton, List.mem_singleton, eq_comm (a := NameKey.of name)]
  have distinct := List.pairwise_map.mp (set.insert name).distinct
  have spelled := keeps.spelled_append [name]
  have ordered := keeps.ordered_append [name]
  by_cases present : set.contains name = true
  · have unchanged : (set.insert name).names = set.names := by
      rw [names_insert, if_pos present]
    exact ⟨held, distinct, unchanged ▸ spelled, unchanged ▸ ordered, size_eq_card_of_held held⟩
  · have added : (set.insert name).names = set.names ++ [name] := by
      rw [names_insert, if_neg present]
    have last : firstPlace (inserted ++ [name]) name = inserted.length :=
      firstPlace_append_self (mt (keeps.held name).mpr present)
    refine ⟨held, distinct, ?_, ?_, size_eq_card_of_held held⟩
    · rw [added, List.forall_mem_append, List.forall_mem_singleton, last]
      exact ⟨spelled, List.getElem?_concat_length⟩
    · rw [added, List.pairwise_append]
      refine ⟨ordered, List.pairwise_singleton _ _, ?_⟩
      intro earlier member later new
      rw [List.mem_singleton.mp new, last, firstPlace_append_of_mem (keeps.mem_keys member)]
      exact firstPlace_lt_iff.mpr (keeps.mem_keys member)

end KeepsFirst

/-! ## Names of a list -/

theorem ofList_append_singleton (names : List String) (name : String) :
    ofList (names ++ [name]) = (ofList names).insert name :=
  List.foldl_append

theorem keepsFirst_ofList (names : List String) : KeepsFirst names (ofList names) := by
  -- From the end of the list, where the name inserted last stands.
  induction names using List.reverseRecOn with
  | nil => exact keepsFirst_empty
  | append_singleton names name inductionHypothesis =>
      rw [ofList_append_singleton]
      exact inductionHypothesis.insert name

/-- The set of the names of a list holds the keys of the list. -/
theorem contains_ofList {names : List String} {name : String} :
    (ofList names).contains name = true ↔ NameKey.of name ∈ names.map NameKey.of :=
  (keepsFirst_ofList names).held name

/-! ## Gathered sets -/

/-- The sets that names are gathered into, one by one or from a whole list, and the names
that were inserted on the way. -/
inductive Gathered : List String → NameSet → Prop where
  | empty : Gathered [] empty
  | insert {inserted : List String} {set : NameSet} (gathered : Gathered inserted set)
      (name : String) : Gathered (inserted ++ [name]) (set.insert name)
  | ofList (names : List String) : Gathered names (ofList names)

theorem Gathered.keepsFirst {inserted : List String} {set : NameSet}
    (gathered : Gathered inserted set) : KeepsFirst inserted set := by
  induction gathered with
  | empty => exact keepsFirst_empty
  | insert _ name inductionHypothesis => exact inductionHypothesis.insert name
  | ofList names => exact keepsFirst_ofList names

/-- Sets of names compare by their keys alone, whatever was inserted into them: they are the
same exactly when no name tells them apart.  And each holds the first spelling of every key
inserted, once and in the order of arrival. -/
theorem Gathered.first_spellings_compare_by_key {leftInserted rightInserted : List String}
    {left right : NameSet} (leftGathered : Gathered leftInserted left)
    (rightGathered : Gathered rightInserted right) :
    (left.same right = true ↔ ∀ name, left.contains name = right.contains name) ∧
      KeepsFirst leftInserted left ∧ KeepsFirst rightInserted right :=
  ⟨same_iff.trans keySet_eq_iff, leftGathered.keepsFirst, rightGathered.keepsFirst⟩

/-- Streets read from a list, in which one of them stands twice. -/
def listedStreets : NameSet :=
  ofList ["Οδός", "Quay", "ΟΔΌΣ"]

/-- The same streets, inserted one by one in other spellings. -/
def namedStreets : NameSet :=
  (empty.insert "QUAY").insert "οδός"

theorem streets_gathered_in_two_ways :
    Gathered ["Οδός", "Quay", "ΟΔΌΣ"] listedStreets ∧ Gathered ["QUAY", "οδός"] namedStreets ∧
      listedStreets.names = ["Οδός", "Quay"] ∧ namedStreets.names = ["QUAY", "οδός"] ∧
      listedStreets.same namedStreets = true ∧
      (∀ name, listedStreets.contains name = namedStreets.contains name) ∧
      KeepsFirst ["Οδός", "Quay", "ΟΔΌΣ"] listedStreets ∧
      KeepsFirst ["QUAY", "οδός"] namedStreets := by
  have listed : Gathered ["Οδός", "Quay", "ΟΔΌΣ"] listedStreets := .ofList _
  have named : Gathered ["QUAY", "οδός"] namedStreets :=
    (Gathered.empty.insert "QUAY").insert "οδός"
  have same : listedStreets.same namedStreets = true := by decide +kernel
  obtain ⟨compared, listedKept, namedKept⟩ := listed.first_spellings_compare_by_key named
  exact ⟨listed, named, by decide +kernel, by decide +kernel, same, compared.mp same,
    listedKept, namedKept⟩

end NameSet

end Tabula
