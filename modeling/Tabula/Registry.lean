import Tabula.Name

/-!
# Registries

A registry files values under name keys and keeps the order in which the keys were
first filed.  Filing under a key that is taken replaces the value and leaves the order
alone.  Every law is stated through `find?`, the only way to read one key.
-/

namespace Tabula

/-- Values filed under name keys, each key once, in order of arrival. -/
structure Registry (α : Type) where
  entries : List (NameKey × α)
  distinct : (entries.map Prod.fst).Nodup

/-- Among members with different keys, the one with a given key is found by it. -/
theorem find?_of_nodup_map {α κ : Type} [DecidableEq κ] {members : List α} {key : α → κ}
    (distinct : (members.map key).Nodup) {member : α} (among : member ∈ members) :
    members.find? (fun other => key other = key member) = some member := by
  induction members with
  | nil => cases among
  | cons first members inductionHypothesis =>
      rw [List.map_cons, List.nodup_cons] at distinct
      rcases List.mem_cons.1 among with rfl | further
      · simp
      · have different : key first ≠ key member := fun same =>
          distinct.1 (same ▸ List.mem_map_of_mem further)
        rw [List.find?_cons_of_neg (by simpa using different)]
        exact inductionHypothesis distinct.2 further

namespace Registry

variable {α : Type}

/-- The registry without entries. -/
def empty : Registry α :=
  ⟨[], by simp⟩

/-- The keys in order of arrival. -/
def keys (registry : Registry α) : List NameKey :=
  registry.entries.map Prod.fst

/-- The values in order of arrival of their keys. -/
def values (registry : Registry α) : List α :=
  registry.entries.map Prod.snd

/-- The value filed under a key. -/
def find? (registry : Registry α) (key : NameKey) : Option α :=
  (registry.entries.find? fun entry => entry.1 = key).map Prod.snd

/-- Something is filed under the key. -/
def contains (registry : Registry α) (key : NameKey) : Bool :=
  (registry.find? key).isSome

/-- Replaces the value of a key in a list of entries. -/
def replaceEntry (key : NameKey) (value : α) (entry : NameKey × α) : NameKey × α :=
  if entry.1 = key then (key, value) else entry

theorem map_fst_replaceEntry (key : NameKey) (value : α) (entries : List (NameKey × α)) :
    (entries.map (replaceEntry key value)).map Prod.fst = entries.map Prod.fst := by
  rw [List.map_map]
  apply List.map_congr_left
  intro entry _
  simp only [Function.comp, replaceEntry]
  split
  · simp_all
  · rfl

theorem mem_keys_iff {registry : Registry α} {key : NameKey} :
    key ∈ registry.keys ↔ registry.contains key = true := by
  simp [keys, contains, find?, List.find?_isSome]

/-- Files a value under a key. -/
def insert (registry : Registry α) (key : NameKey) (value : α) : Registry α :=
  if taken : registry.contains key = true then
    ⟨registry.entries.map (replaceEntry key value), by
      rw [map_fst_replaceEntry]
      exact registry.distinct⟩
  else
    ⟨registry.entries ++ [(key, value)], by
      rw [← mem_keys_iff] at taken
      rw [List.map_append, List.nodup_append]
      refine ⟨registry.distinct, by simp, ?_⟩
      intro other member new newMember same
      simp only [List.map_cons, List.map_nil, List.mem_singleton] at newMember
      subst newMember
      subst same
      exact taken member⟩

/-- Takes a key out of the registry. -/
def erase (registry : Registry α) (key : NameKey) : Registry α :=
  ⟨registry.entries.filter fun entry => entry.1 ≠ key,
    registry.distinct.sublist (List.filter_sublist.map _)⟩

/-- The number of entries. -/
def size (registry : Registry α) : Nat :=
  registry.entries.length

@[simp]
theorem find?_empty (key : NameKey) : (empty : Registry α).find? key = none :=
  rfl

theorem find?_map_replaceEntry (key other : NameKey) (value : α)
    (entries : List (NameKey × α)) :
    ((entries.map (replaceEntry key value)).find? fun entry => entry.1 = other).map
        Prod.snd =
      if key = other then
        (entries.find? fun entry => entry.1 = other).map fun _ => value
      else (entries.find? fun entry => entry.1 = other).map Prod.snd := by
  induction entries with
  | nil => simp
  | cons entry entries inductionHypothesis =>
      simp only [List.map_cons, List.find?_cons, replaceEntry]
      by_cases here : entry.1 = key
      · simp only [here, if_true]
        by_cases same : key = other
        · simp [same]
        · simpa [same] using inductionHypothesis
      · simp only [here, if_false]
        by_cases hit : entry.1 = other
        · have different : key ≠ other := fun same => here (hit.trans same.symm)
          simp [hit, different]
        · simpa [hit] using inductionHypothesis

/-- Each key is there once, so what is found under it is what was filed. -/
theorem find?_eq_some_iff {registry : Registry α} {key : NameKey} {value : α} :
    registry.find? key = some value ↔ (key, value) ∈ registry.entries := by
  rw [find?, Option.map_eq_some_iff]
  constructor
  · rintro ⟨⟨filed, _⟩, found, rfl⟩
    have same : filed = key := by simpa using List.find?_some found
    exact same ▸ List.mem_of_find?_eq_some found
  · intro member
    exact ⟨_, find?_of_nodup_map registry.distinct member, rfl⟩

/-- A filed value is found under its key, and other keys keep theirs. -/
theorem find?_insert (registry : Registry α) (key other : NameKey) (value : α) :
    (registry.insert key value).find? other =
      if key = other then some value else registry.find? other := by
  unfold insert
  split
  · rename_i taken
    simp only [find?, find?_map_replaceEntry]
    split
    · rename_i same
      subst same
      simp only [contains, find?, Option.isSome_map] at taken
      obtain ⟨entry, found⟩ := Option.isSome_iff_exists.1 taken
      rw [found]
      rfl
    · rfl
  · rename_i vacant
    simp only [find?, List.find?_append]
    by_cases same : key = other
    · subst same
      simp only [contains, find?, Option.isSome_map, Option.isSome_iff_ne_none, ne_eq,
        Decidable.not_not] at vacant
      simp [vacant]
    · simp [same]

/-- Taking out a key that was not there before it was filed undoes the filing. -/
theorem erase_insert {registry : Registry α} {key : NameKey}
    (vacant : registry.contains key = false) (value : α) :
    (registry.insert key value).erase key = registry := by
  have absent : ∀ entry ∈ registry.entries, decide (entry.1 ≠ key) = true := by
    intro entry member
    rw [decide_eq_true_eq]
    intro same
    have taken : registry.contains key = true :=
      mem_keys_iff.1 (List.mem_map.2 ⟨entry, member, same⟩)
    rw [vacant] at taken
    cases taken
  unfold insert erase
  rw [dif_neg (by simp [vacant])]
  simp only [List.filter_append, List.filter_eq_self.2 absent]
  simp

end Registry

end Tabula
