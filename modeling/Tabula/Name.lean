import Tabula.Text.Lowercase

/-!
# Names and sets of names

Names compare without regard to case: two names are the same when their lowercase
forms agree, and that form is the key under which a name is filed.  A set of names
remembers the first spelling of each name and the order of arrival; both are forgotten
when two sets are compared.
-/

namespace Tabula

/-- The form under which a name is filed. -/
structure NameKey where
  text : String
  deriving DecidableEq

/-- The key of a name: its lowercase form. -/
def NameKey.of (name : String) : NameKey :=
  ⟨Text.lowercase name⟩

/-- Names that are pairwise different without regard to case, in order of arrival. -/
structure NameSet where
  names : List String
  distinct : (names.map NameKey.of).Nodup

namespace NameSet

/-- The set without names. -/
def empty : NameSet :=
  ⟨[], by simp⟩

/-- Some spelling of the name is in the set. -/
def contains (set : NameSet) (name : String) : Bool :=
  set.names.any fun held => NameKey.of held = NameKey.of name

theorem contains_iff {set : NameSet} {name : String} :
    set.contains name = true ↔ NameKey.of name ∈ set.names.map NameKey.of := by
  simp only [contains, List.any_eq_true, decide_eq_true_eq, List.mem_map]

/-- The set with a name added at the end, unless a spelling of it is there already. -/
def insert (set : NameSet) (name : String) : NameSet :=
  if held : set.contains name = true then set
  else
    ⟨set.names ++ [name], by
      rw [contains_iff] at held
      rw [List.map_append, List.nodup_append]
      refine ⟨set.distinct, by simp, ?_⟩
      intro key member other otherMember same
      simp only [List.map_cons, List.map_nil, List.mem_singleton] at otherMember
      subst otherMember
      subst same
      exact held member⟩

/-- The first spellings of the names of a list. -/
def ofList (names : List String) : NameSet :=
  names.foldl insert empty

/-- The number of names. -/
def size (set : NameSet) : Nat :=
  set.names.length

/-- There is no name in the set. -/
def isEmpty (set : NameSet) : Bool :=
  set.names.isEmpty

/-- The sets hold the same names; as neither holds a name twice, one inclusion between
sets of one size is enough. -/
def same (left right : NameSet) : Bool :=
  left.size = right.size && left.names.all right.contains

@[simp]
theorem names_empty : empty.names = [] :=
  rfl

@[simp]
theorem contains_empty (name : String) : empty.contains name = false :=
  rfl

theorem names_insert (set : NameSet) (name : String) :
    (set.insert name).names =
      if set.contains name then set.names else set.names ++ [name] := by
  unfold insert
  split <;> simp_all

/-- Inserting a name makes exactly its spellings new members. -/
theorem contains_insert (set : NameSet) (name other : String) :
    (set.insert name).contains other =
      (set.contains other || decide (NameKey.of name = NameKey.of other)) := by
  rw [Bool.eq_iff_iff, Bool.or_eq_true, decide_eq_true_eq, contains_iff, contains_iff,
    names_insert]
  split
  · rename_i held
    rw [contains_iff] at held
    constructor
    · exact Or.inl
    · rintro (member | same)
      · exact member
      · exact same ▸ held
  · simp [eq_comm]

end NameSet

end Tabula
