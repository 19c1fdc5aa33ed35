import Mathlib.Order.Lattice
import ZurichOS.PartialTable

/-!
Tables of half-open intervals that lie within bounds and do not overlap.
-/

namespace IntervalTable

open PartialTable

variable {Index Point : Type} [DecidableEq Index] [LinearOrder Point]

structure Sound (low high : Point) (areas : Index → Option (Point × Point)) : Prop where
  inside : ∀ index start stop, areas index = some (start, stop) →
    low ≤ start ∧ start < stop ∧ stop ≤ high
  apart : ∀ index start stop other first last, areas index = some (start, stop) →
    areas other = some (first, last) → index ≠ other → stop ≤ first ∨ last ≤ start

/-- The table has room for the interval at `index`. -/
structure Fits (low high : Point) (areas : Index → Option (Point × Point)) (index : Index)
    (start stop : Point) : Prop where
  inside : low ≤ start ∧ start < stop ∧ stop ≤ high
  apart : ∀ other first last, areas other = some (first, last) → other ≠ index →
    stop ≤ first ∨ last ≤ start

variable {low high start stop : Point} {areas : Index → Option (Point × Point)} {index : Index}

omit [DecidableEq Index] in
theorem Sound.empty : Sound low high fun _ : Index => none := by
  constructor
  · intro _ _ _ found
    cases found
  · intro _ _ _ _ _ _ found
    cases found

theorem Sound.clear (sound : Sound low high areas) (index : Index) :
    Sound low high (Function.update areas index none) := by
  constructor
  · intro other start stop found
    exact sound.inside other start stop (update_none_some.mp found).2
  · intro left start stop right first last found foundRight
    exact sound.apart left start stop right first last (update_none_some.mp found).2
      (update_none_some.mp foundRight).2

/-- Writing an interval over an entry keeps the table sound exactly if there is room. -/
theorem Sound.place_iff (sound : Sound low high areas) :
    Sound low high (Function.update areas index (some (start, stop))) ↔
      Fits low high areas index start stop := by
  constructor
  · intro placed
    have own : Function.update areas index (some (start, stop)) index = some (start, stop) :=
      Function.update_self ..
    refine ⟨placed.inside index start stop own, ?_⟩
    intro other first last found apart
    have unchanged := (Function.update_of_ne apart (some (start, stop)) areas).trans found
    exact placed.apart index start stop other first last own unchanged (Ne.symm apart)
  · intro fits
    constructor
    · intro other first last found
      rcases update_some.mp found with ⟨_, new⟩ | ⟨_, old⟩
      · cases new
        exact fits.inside
      · exact sound.inside other first last old
    · intro left first last right first' last' found found' apart
      rcases update_some.mp found with ⟨rfl, new⟩ | ⟨ownLeft, old⟩
      · obtain ⟨ownRight, old'⟩ :=
          (update_some.mp found').resolve_left fun own => apart own.1.symm
        cases new
        exact fits.apart right first' last' old' ownRight
      · rcases update_some.mp found' with ⟨rfl, new'⟩ | ⟨_, old'⟩
        · cases new'
          exact (fits.apart left first last old ownLeft).symm
        · exact sound.apart left first last right first' last' old old' apart

end IntervalTable
