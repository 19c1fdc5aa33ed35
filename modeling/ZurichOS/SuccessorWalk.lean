import Mathlib.Logic.Function.Basic
import Mathlib.Logic.Relation
import Mathlib.Order.Preorder.Finite

/-!
Walks along the successors of cells.  A walk over finitely many cells comes to a cell of a
kind, or it is caught in a cycle without one; a walk that takes each cell out of the table as
it leaves it takes out exactly the cells it can reach.
-/

namespace SuccessorWalk

variable {α : Type}

section Stops

variable {next : α → α} {stops : α → Prop} {start : α}

/-- The walk comes back to a cell, and has met no cell of the kind before. -/
def Trapped (next : α → α) (stops : α → Prop) (start : α) : Prop :=
  ∃ first again, first < again ∧ next^[first] start = next^[again] start ∧
    ∀ step < again, ¬ stops (next^[step] start)

/-- From a cell met twice, the walk repeats itself. -/
theorem iterate_repeats {first again : Nat} (before : first < again)
    (same : next^[first] start = next^[again] start) (step : Nat) :
    ∃ earlier < again, next^[earlier] start = next^[step] start := by
  induction step with
  | zero => exact ⟨0, by omega, rfl⟩
  | succ step ih =>
      obtain ⟨earlier, below, reached⟩ := ih
      have onward : next^[earlier + 1] start = next^[step + 1] start := by
        rw [Function.iterate_succ_apply', Function.iterate_succ_apply', reached]
      by_cases last : earlier + 1 = again
      · refine ⟨first, before, ?_⟩
        rw [same, ← last, onward]
      · exact ⟨earlier + 1, by omega, onward⟩

theorem stops_iff_not_trapped (finite : {cell | ¬ stops cell}.Finite) :
    (∃ step, stops (next^[step] start)) ↔ ¬ Trapped next stops start := by
  constructor
  · rintro ⟨step, stopped⟩ ⟨first, again, before, same, quiet⟩
    obtain ⟨earlier, below, reached⟩ := iterate_repeats before same step
    apply quiet earlier below
    rw [reached]
    exact stopped
  · intro free
    by_contra never
    have quiet : ∀ step, ¬ stops (next^[step] start) := not_exists.mp never
    obtain ⟨first, again, before, same⟩ :=
      Set.Finite.exists_lt_map_eq_of_forall_mem (t := {cell | ¬ stops cell}) quiet finite
    exact free ⟨first, again, before, same, fun step _ => quiet step⟩

/-- A loop that ends at a cell of the kind and goes on to the successor of any other. -/
theorem loop_ends_iff {ends : Nat → α → Prop} (spent : ∀ cell, ¬ ends 0 cell)
    (turn : ∀ fuel cell, ends (fuel + 1) cell ↔ stops cell ∨ ends fuel (next cell)) :
    (∃ fuel, ends fuel start) ↔ ∃ step, stops (next^[step] start) := by
  have within : ∀ fuel cell, ends fuel cell ↔ ∃ step < fuel, stops (next^[step] cell) := by
    intro fuel
    induction fuel with
    | zero => simpa using spent
    | succ fuel ih =>
        intro cell
        rw [turn, ih]
        constructor
        · rintro (here | ⟨step, below, later⟩)
          · exact ⟨0, by omega, here⟩
          · exact ⟨step + 1, by omega, later⟩
        · rintro ⟨step, below, stopped⟩
          cases step with
          | zero => exact .inl stopped
          | succ step => exact .inr ⟨step, by omega, stopped⟩
  constructor
  · rintro ⟨fuel, ended⟩
    obtain ⟨step, _, stopped⟩ := (within fuel start).mp ended
    exact ⟨step, stopped⟩
  · rintro ⟨step, stopped⟩
    exact ⟨step + 1, (within _ start).mpr ⟨step, by omega, stopped⟩⟩

end Stops

section Clearing

variable {next : α → Option α} {start onward cell : α}

/-- The cell is met on the way from `start` along the successors. -/
def Reaches (next : α → Option α) : α → α → Prop :=
  Relation.ReflTransGen fun cell later => next cell = some later

theorem reaches_none (last : next start = none) : Reaches next start cell ↔ cell = start := by
  constructor
  · intro reached
    rcases Relation.ReflTransGen.cases_head reached with same | ⟨later, linked, _⟩
    · exact same.symm
    · rw [last] at linked
      cases linked
  · rintro rfl
    exact .refl

/-- The way on from a cell needs the cell itself only if it comes back to it. -/
theorem reaches_some [DecidableEq α] (linked : next start = some onward) :
    Reaches next start cell ↔
      cell = start ∨ Reaches (Function.update next start none) onward cell := by
  constructor
  · intro reached
    induction reached with
    | refl => exact .inl rfl
    | @tail later last _ further ih =>
        by_cases again : later = start
        · rw [again, linked] at further
          obtain rfl := Option.some.inj further
          exact .inr .refl
        · have kept : Function.update next start none later = some last := by
            rw [Function.update_of_ne again, further]
          exact .inr (Relation.ReflTransGen.tail (ih.resolve_left again) kept)
  · rintro (rfl | reached)
    · exact .refl
    · refine Relation.ReflTransGen.head linked (Relation.ReflTransGen.mono ?_ _ _ reached)
      intro earlier later further
      by_cases own : earlier = start
      · rw [own, Function.update_self] at further
        cases further
      · rwa [Function.update_of_ne own] at further

end Clearing

end SuccessorWalk
