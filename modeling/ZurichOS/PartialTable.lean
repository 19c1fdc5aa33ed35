import Mathlib.Logic.Function.Basic

/-!
Tables whose entries may be empty, and what they hold after one of them is written.
-/

namespace PartialTable

variable {Index Value : Type} [DecidableEq Index] {table : Index → Option Value}
  {index other : Index} {value : Value}

theorem update_some {written : Option Value} :
    Function.update table index written other = some value ↔
      other = index ∧ written = some value ∨ other ≠ index ∧ table other = some value := by
  by_cases own : other = index
  · simp [own]
  · simp [own]

theorem update_none_some :
    Function.update table index none other = some value ↔
      other ≠ index ∧ table other = some value := by
  simp [update_some]

/-- An empty entry is written, and what the others hold stays. -/
theorem update_empty (empty : table index = none) (held : table other = some value)
    (written : Option Value) : Function.update table index written other = some value := by
  refine update_some.mpr (.inr ⟨fun own => ?_, held⟩)
  rw [own, empty] at held
  cases held

/-- What is written is in no other entry, so no two entries come to hold the same. -/
theorem update_apart {written : Option Value}
    (apart : ∀ first second value, table first = some value → table second = some value →
      first = second)
    (fresh : ∀ value, written = some value → ∀ other, other ≠ index → table other ≠ some value) :
    ∀ first second value, Function.update table index written first = some value →
      Function.update table index written second = some value → first = second := by
  intro first second value here there
  rcases update_some.mp here with ⟨ownFirst, new⟩ | ⟨otherFirst, old⟩
  · rcases update_some.mp there with ⟨ownSecond, _⟩ | ⟨otherSecond, old⟩
    · rw [ownFirst, ownSecond]
    · exact absurd old (fresh value new second otherSecond)
  · rcases update_some.mp there with ⟨_, new⟩ | ⟨_, there⟩
    · exact absurd old (fresh value new first otherFirst)
    · exact apart first second value old there

end PartialTable
