import Mathlib.Data.List.Nodup
import Mathlib.Logic.Function.Basic

/-!
Chains of cells in a table that records the successor of each cell, and owners that
have one chain each.  Chains grow at the end by cells nobody has taken, and stay apart.
-/

namespace LinkedChains

variable {α ι : Type}

/-- The cells follow each other in the table, and the last has no successor. -/
def Chained (next : α → Option α) : List α → Prop
  | [] => True
  | cell :: rest => next cell = rest.head? ∧ Chained next rest

section Chained

variable {next other : α → Option α} {xs ys : List α}

theorem Chained.congr (chained : Chained next xs) (same : ∀ cell ∈ xs, other cell = next cell) :
    Chained other xs := by
  induction xs with
  | nil => trivial
  | cons cell rest ih =>
      constructor
      · rw [same cell (List.mem_cons_self ..)]
        exact chained.1
      · exact ih chained.2 fun later member => same later (List.mem_cons_of_mem _ member)

theorem Chained.suffix (chained : Chained next (xs ++ ys)) : Chained next ys := by
  induction xs with
  | nil => exact chained
  | cons _ _ ih => exact ih chained.2

theorem Chained.successor {cell : α} (chained : Chained next (xs ++ cell :: ys)) :
    next cell = ys.head? := chained.suffix.1

theorem Chained.unique (first : Chained next xs) (second : Chained next ys)
    (same : xs.head? = ys.head?) : xs = ys := by
  induction xs generalizing ys with
  | nil =>
      cases ys with
      | nil => rfl
      | cons _ _ => cases same
  | cons cell rest ih =>
      cases ys with
      | nil => cases same
      | cons other later =>
          obtain rfl : cell = other := Option.some.inj same
          rw [ih first.2 second.2 (first.1.symm.trans second.1)]

theorem Chained.nodup (chained : Chained next xs) : xs.Nodup := by
  induction xs with
  | nil => exact List.nodup_nil
  | cons cell rest ih =>
      refine List.nodup_cons.mpr ⟨fun member => ?_, ih chained.2⟩
      obtain ⟨before, later, split⟩ := List.append_of_mem member
      have whole : Chained next (before ++ cell :: later) := split ▸ chained.2
      have again : Chained next (cell :: later) := whole.suffix
      have equal := congrArg List.length (chained.unique again rfl)
      rw [split] at equal
      simp only [List.length_cons, List.length_append] at equal
      omega

theorem Chained.link {last new : α} (chained : Chained next (xs ++ [last]))
    (linked : other last = some new) (ends : other new = none)
    (same : ∀ cell ∈ xs, other cell = next cell) : Chained other (xs ++ [last, new]) := by
  induction xs with
  | nil => exact ⟨linked, ends, trivial⟩
  | cons cell rest ih =>
      constructor
      · rw [same cell (List.mem_cons_self ..), chained.1]
        cases rest <;> rfl
      · exact ih chained.2 fun later member => same later (List.mem_cons_of_mem _ member)

end Chained

structure Table (α : Type) where
  next : α → Option α
  taken : α → Prop

/-- The table `after` differs from `before` in the chain `xs`, which goes on with the
cells `ys` that were free. -/
structure Grown (before after : Table α) (xs ys : List α) : Prop where
  chained : Chained after.next (xs ++ ys)
  fresh : ∀ cell ∈ ys, ¬ before.taken cell
  taken : ∀ cell ∈ xs ++ ys, after.taken cell
  others : ∀ cell, cell ∉ xs ++ ys →
    after.next cell = before.next cell ∧ (after.taken cell ↔ before.taken cell)

section Grown

variable {before after last : Table α} {xs ys zs : List α}

theorem Grown.refl (chained : Chained before.next xs) (taken : ∀ cell ∈ xs, before.taken cell) :
    Grown before before xs [] := by
  refine ⟨by rwa [List.append_nil], ?_, by rwa [List.append_nil], fun _ _ => ⟨rfl, Iff.rfl⟩⟩
  intro cell member
  cases member

theorem Grown.trans (first : Grown before after xs ys) (second : Grown after last (xs ++ ys) zs) :
    Grown before last xs (ys ++ zs) := by
  constructor
  · rw [← List.append_assoc]
    exact second.chained
  · intro cell member
    rcases List.mem_append.mp member with early | late
    · exact first.fresh cell early
    · intro taken
      apply second.fresh cell late
      by_cases inside : cell ∈ xs ++ ys
      · exact first.taken cell inside
      · exact (first.others cell inside).2.mpr taken
  · rw [← List.append_assoc]
    exact second.taken
  · intro cell outside
    rw [← List.append_assoc] at outside
    have within : cell ∉ xs ++ ys := fun member => outside (List.mem_append_left _ member)
    obtain ⟨sameNext, sameTaken⟩ := second.others cell outside
    obtain ⟨oldNext, oldTaken⟩ := first.others cell within
    exact ⟨sameNext.trans oldNext, sameTaken.trans oldTaken⟩

end Grown

/-- Each owner has a chain of taken cells, and no two of them share a cell. -/
structure Owned (table : Table α) (chains : ι → List α) : Prop where
  chained : ∀ owner, Chained table.next (chains owner)
  taken : ∀ owner, ∀ cell ∈ chains owner, table.taken cell
  apart : ∀ owner other, owner ≠ other → ∀ cell ∈ chains owner, cell ∉ chains other

section Owned

variable [DecidableEq ι] {before after : Table α} {chains : ι → List α}

theorem Owned.grow (owned : Owned before chains) (owner : ι) {ys : List α}
    (grown : Grown before after (chains owner) ys) :
    Owned after (Function.update chains owner (chains owner ++ ys)) := by
  have apart : ∀ other, other ≠ owner → ∀ cell ∈ chains other, cell ∉ chains owner ++ ys := by
    intro other different cell member inside
    rcases List.mem_append.mp inside with own | new
    · exact owned.apart other owner different cell member own
    · exact grown.fresh cell new (owned.taken other cell member)
  constructor
  · intro other
    by_cases own : other = owner
    · subst own
      rw [Function.update_self]
      exact grown.chained
    · rw [Function.update_of_ne own]
      apply (owned.chained other).congr
      intro cell member
      exact (grown.others cell (apart other own cell member)).1
  · intro other cell member
    by_cases own : other = owner
    · subst own
      rw [Function.update_self] at member
      exact grown.taken cell member
    · rw [Function.update_of_ne own] at member
      exact (grown.others cell (apart other own cell member)).2.mpr
        (owned.taken other cell member)
  · intro left right different cell member inside
    by_cases isLeft : left = owner
    · subst isLeft
      rw [Function.update_self] at member
      rw [Function.update_of_ne (Ne.symm different)] at inside
      exact apart right (Ne.symm different) cell inside member
    · rw [Function.update_of_ne isLeft] at member
      by_cases isRight : right = owner
      · subst isRight
        rw [Function.update_self] at inside
        exact apart left isLeft cell member inside
      · rw [Function.update_of_ne isRight] at inside
        exact owned.apart left right different cell member inside

/-- Giving all cells of one chain back leaves the chains of the other owners as they are. -/
theorem Owned.free (owned : Owned before chains) (owner : ι)
    (others : ∀ cell, cell ∉ chains owner →
      after.next cell = before.next cell ∧ (after.taken cell ↔ before.taken cell)) :
    Owned after (Function.update chains owner []) := by
  constructor
  · intro other
    by_cases own : other = owner
    · subst own
      rw [Function.update_self]
      trivial
    · rw [Function.update_of_ne own]
      apply (owned.chained other).congr
      intro cell member
      exact (others cell (owned.apart other owner own cell member)).1
  · intro other cell member
    by_cases own : other = owner
    · subst own
      rw [Function.update_self] at member
      cases member
    · rw [Function.update_of_ne own] at member
      exact (others cell (owned.apart other owner own cell member)).2.mpr
        (owned.taken other cell member)
  · intro left right different cell member inside
    by_cases isLeft : left = owner
    · subst isLeft
      rw [Function.update_self] at member
      cases member
    · rw [Function.update_of_ne isLeft] at member
      by_cases isRight : right = owner
      · subst isRight
        rw [Function.update_self] at inside
        cases inside
      · rw [Function.update_of_ne isRight] at inside
        exact owned.apart left right different cell member inside

end Owned

end LinkedChains
