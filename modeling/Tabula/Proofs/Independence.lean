import Mathlib.Data.List.Perm.Basic

/-!
# Steps that touch different parts of a state

A state is known by its parts.  A step that reads and changes a single part does the same
before and after a step that touches another part, and is refused in the same cases.  So
steps that all touch different parts may be taken in any order.
-/

namespace Tabula

variable {σ ι α : Type} {Part : ι → Type} {read : σ → (part : ι) → Part part}

/-- The step changes one part of the state, and what becomes of the part depends on nothing
but the part. -/
structure TouchesOnly (read : σ → (part : ι) → Part part) (touched : ι) (step : σ → Option σ) :
    Prop where
  frame : ∀ {before after}, step before = some after → ∀ part, part ≠ touched →
    read after part = read before part
  reads : ∀ {left right}, read left touched = read right touched →
    (step left).map (read · touched) = (step right).map (read · touched)

namespace TouchesOnly

variable {touched other : ι} {step next : σ → Option σ}

/-- A step that is refused in every state or changes none. -/
theorem of_guard (accepted : Bool) (touched : ι) :
    TouchesOnly read touched fun state => if accepted then some state else none where
  frame := by
    intro before after same
    cases accepted with
    | false => cases same
    | true =>
        cases same
        exact fun _ _ => rfl
  reads := by
    intro left right same
    cases accepted with
    | false => rfl
    | true => exact congrArg some same

/-- A step that finds the new content of a part in the old one and puts it there. -/
theorem of_update [DecidableEq ι] {ofParts : ((part : ι) → Part part) → σ}
    (read_ofParts : ∀ parts, read (ofParts parts) = parts) (touched : ι)
    (found : Part touched → Option α) (content : α → Part touched)
    (computes : ∀ state, step state = (found (read state touched)).map fun value =>
      ofParts (Function.update (read state) touched (content value))) :
    TouchesOnly read touched step where
  frame := by
    intro before after same part apart
    rw [computes] at same
    rcases Option.map_eq_some_iff.mp same with ⟨value, _, rfl⟩
    rw [read_ofParts, Function.update_of_ne apart]
  reads := by
    intro left right same
    simp only [computes, same, Option.map_map, Function.comp_def, read_ofParts,
      Function.update_self]

/-- A step after one that touches another part is refused where it is refused before. -/
theorem eq_none_iff (here : TouchesOnly read touched step) (there : TouchesOnly read other next)
    (apart : touched ≠ other) {state after : σ} (taken : next state = some after) :
    step after = none ↔ step state = none := by
  have same := here.reads (there.frame taken touched apart)
  rw [← Option.map_eq_none_iff, same, Option.map_eq_none_iff]

/-- Steps that touch different parts commute. -/
theorem comm (injective : Function.Injective read) (here : TouchesOnly read touched step)
    (there : TouchesOnly read other next) (apart : touched ≠ other) (state : σ) :
    (step state).bind next = (next state).bind step := by
  cases first : step state with
  | none =>
      cases second : next state with
      | none => rfl
      | some after => exact ((here.eq_none_iff there apart second).mpr first).symm
  | some left =>
      cases second : next state with
      | none => exact (there.eq_none_iff here apart.symm first).mpr second
      | some right =>
          have further := there.reads (here.frame first other apart.symm)
          have elsewhere := here.reads (there.frame second touched apart)
          rw [second, Option.map_some, Option.map_eq_some_iff] at further
          rw [first, Option.map_some, Option.map_eq_some_iff] at elsewhere
          rcases further with ⟨last, lastTaken, sameOther⟩
          rcases elsewhere with ⟨final, finalTaken, sameTouched⟩
          rw [Option.bind_some, Option.bind_some, lastTaken, finalTaken]
          apply congrArg some
          apply injective
          funext part
          by_cases isTouched : part = touched
          · subst isTouched
            exact (there.frame lastTaken part apart).trans sameTouched.symm
          · by_cases isOther : part = other
            · subst isOther
              exact sameOther.trans (here.frame finalTaken part isTouched).symm
            · calc
                read last part = read left part := there.frame lastTaken part isOther
                _ = read state part := here.frame first part isTouched
                _ = read right part := (there.frame second part isOther).symm
                _ = read final part := (here.frame finalTaken part isTouched).symm

end TouchesOnly

/-- Entries that touch different parts may come in any order. -/
theorem foldlM_eq_of_perm {step : σ → α → Option σ} {touches : α → ι}
    (injective : Function.Injective read)
    (each : ∀ entry, TouchesOnly read (touches entry) (step · entry)) {entries others : List α}
    (perm : entries.Perm others) (apart : (entries.map touches).Nodup) (state : σ) :
    entries.foldlM step state = others.foldlM step state := by
  induction perm generalizing state with
  | nil => rfl
  | cons entry _ inductionHypothesis =>
      rw [List.map_cons, List.nodup_cons] at apart
      rw [List.foldlM_cons, List.foldlM_cons]
      apply congrArg
      funext next
      exact inductionHypothesis apart.2 next
  | swap first second entries =>
      have different : touches second ≠ touches first := by
        intro same
        rw [List.map_cons, List.map_cons, List.nodup_cons, same] at apart
        exact apart.1 List.mem_cons_self
      have swapped := (each second).comm injective (each first) different state
      simp only [List.foldlM_cons]
      rw [← bind_assoc, ← bind_assoc]
      exact congrArg (· >>= fun next => entries.foldlM step next) swapped
  | trans firstPerm _ firstHypothesis secondHypothesis =>
      apply (firstHypothesis apart state).trans
      exact secondHypothesis ((firstPerm.map touches).nodup_iff.mp apart) state

end Tabula
