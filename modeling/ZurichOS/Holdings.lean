import Mathlib.Data.List.Nodup
import Mathlib.Logic.Function.Basic

/-!
Holders and the items each of them was given.  Holdings are exclusive if no item is held
twice, by one holder or by two.
-/

namespace Holdings

variable {Holder Item : Type}

structure Exclusive (holds : Holder → List Item) : Prop where
  once : ∀ holder, (holds holder).Nodup
  apart : ∀ holder other item, item ∈ holds holder → item ∈ holds other → holder = other

variable {holds : Holder → List Item}

variable [DecidableEq Holder]

/-- A holder's items are replaced by items that no other holder has. -/
theorem Exclusive.replace (exclusive : Exclusive holds) (holder : Holder) {items : List Item}
    (once : items.Nodup) (fresh : ∀ item ∈ items, ∀ other, other ≠ holder → item ∉ holds other) :
    Exclusive (Function.update holds holder items) := by
  refine ⟨fun one => ?_, fun one two item first second => ?_⟩
  · by_cases own : one = holder
    · rw [own, Function.update_self]
      exact once
    · rw [Function.update_of_ne own]
      exact exclusive.once one
  · by_cases ownOne : one = holder
    · by_cases ownTwo : two = holder
      · rw [ownOne, ownTwo]
      · rw [ownOne, Function.update_self] at first
        rw [Function.update_of_ne ownTwo] at second
        exact absurd second (fresh item first two ownTwo)
    · rw [Function.update_of_ne ownOne] at first
      by_cases ownTwo : two = holder
      · rw [ownTwo, Function.update_self] at second
        exact absurd first (fresh item second one ownOne)
      · rw [Function.update_of_ne ownTwo] at second
        exact exclusive.apart one two item first second

theorem mem_update {holder other : Holder} {items : List Item} {item : Item}
    (inside : item ∈ Function.update holds holder items other) :
    other = holder ∧ item ∈ items ∨ other ≠ holder ∧ item ∈ holds other := by
  by_cases own : other = holder
  · rw [own, Function.update_self] at inside
    exact .inl ⟨own, inside⟩
  · rw [Function.update_of_ne own] at inside
    exact .inr ⟨own, inside⟩

end Holdings
