import ZurichOS.PartialTable

/-!
Holders that each point to at most one slot of a table whose slots are freed and used
again.  A pointer may be stale: its slot is no longer in use.
-/

namespace Handles

open PartialTable

variable {Holder Slot : Type}

/-- No two holders point to one slot. -/
def Apart (points : Holder → Option Slot) : Prop :=
  ∀ first second slot, points first = some slot → points second = some slot → first = second

/-- Every slot in use is pointed to, and no two holders point to one slot, in use or not. -/
structure Owned (points : Holder → Option Slot) (live : Slot → Prop) : Prop where
  apart : Apart points
  held : ∀ slot, live slot → ∃ holder, points holder = some slot

variable {points : Holder → Option Slot} {live after : Slot → Prop}

theorem Apart.sub (apart : Apart points) {fewer : Holder → Option Slot}
    (kept : ∀ holder slot, fewer holder = some slot → points holder = some slot) : Apart fewer :=
  fun first second slot here there =>
    apart first second slot (kept first slot here) (kept second slot there)

theorem Owned.unique (owned : Owned points live) {slot : Slot} (used : live slot) :
    ∃! holder, points holder = some slot := by
  obtain ⟨holder, here⟩ := owned.held slot used
  exact ⟨holder, here, fun other there => owned.apart other holder slot there here⟩

/-- Slots that are freed leave stale pointers only. -/
theorem Owned.shrink (owned : Owned points live) (shrinks : ∀ slot, after slot → live slot) :
    Owned points after :=
  ⟨owned.apart, fun slot used => owned.held slot (shrinks slot used)⟩

variable [DecidableEq Holder] {holder : Holder}

theorem Apart.put (apart : Apart points) {value : Option Slot}
    (fresh : ∀ slot, value = some slot → ∀ other, other ≠ holder → points other ≠ some slot) :
    Apart (Function.update points holder value) := update_apart apart fresh

theorem Apart.fresh {slot : Slot} (apart : Apart (Function.update points holder (some slot)))
    {other : Holder} (different : other ≠ holder) : points other ≠ some slot := by
  intro there
  refine different (apart other holder slot ?_ (Function.update_self holder _ points))
  rw [Function.update_of_ne different]
  exact there

/-- A holder drops its pointer, whose slot is not in use afterwards. -/
theorem Owned.drop (owned : Owned points live)
    (shrinks : ∀ slot, after slot → live slot ∧ points holder ≠ some slot) :
    Owned (Function.update points holder none) after := by
  refine ⟨owned.apart.sub fun other slot there => ?_, fun slot used => ?_⟩
  · exact (update_none_some.mp there).2
  · obtain ⟨wasLive, notMine⟩ := shrinks slot used
    obtain ⟨other, there⟩ := owned.held slot wasLive
    have different : other ≠ holder := fun same => notMine (same ▸ there)
    exact ⟨other, (Function.update_of_ne different none points).trans there⟩

/-- A holder whose slot is not in use takes a slot that no other holder points to. -/
theorem Owned.take (owned : Owned points live) {slot : Slot}
    (stale : ∀ old, points holder = some old → ¬ live old)
    (fresh : ∀ other, other ≠ holder → points other ≠ some slot)
    (grows : ∀ other, after other → other = slot ∨ live other) :
    Owned (Function.update points holder (some slot)) after := by
  refine ⟨owned.apart.put fun item same => Option.some.inj same ▸ fresh, fun item used => ?_⟩
  obtain rfl | wasLive := grows item used
  · exact ⟨holder, Function.update_self holder _ points⟩
  · obtain ⟨other, there⟩ := owned.held item wasLive
    have different : other ≠ holder := fun same => stale item (same ▸ there) wasLive
    exact ⟨other, (Function.update_of_ne different _ points).trans there⟩

/-- A holder that gives up its pointer to a slot leaves it to nobody. -/
theorem Apart.lost (apart : Apart points) {slot : Slot} (mine : points holder = some slot)
    {next : Option Slot} (moved : next ≠ some slot) (other : Holder) :
    Function.update points holder next other ≠ some slot := by
  by_cases same : other = holder
  · rw [same, Function.update_self]
    exact moved
  · rw [Function.update_of_ne same]
    exact fun there => same (apart other holder slot there mine)

end Handles
