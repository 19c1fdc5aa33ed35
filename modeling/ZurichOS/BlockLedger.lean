import Mathlib.Data.List.Nodup
import ZurichOS.PartialTable

/-!
Blocks that are recorded in places and freed.  A ledger is sound if no block is recorded
twice, none is freed twice, and none is still recorded after it was freed.
-/

namespace BlockLedger

open PartialTable

variable {Place Block : Type}

structure Owned (records : Place → Option Block) (freed : List Block) : Prop where
  once : ∀ place other block, records place = some block → records other = some block →
    place = other
  freedOnce : freed.Nodup
  gone : ∀ place block, records place = some block → block ∉ freed

variable {records : Place → Option Block} {freed : List Block}

/-- What is no longer recorded is not missed. -/
theorem Owned.fewer (owned : Owned records freed) {fewer : Place → Option Block}
    (left : ∀ place block, fewer place = some block → records place = some block) :
    Owned fewer freed where
  once place other block here there :=
    owned.once place other block (left place block here) (left other block there)
  freedOnce := owned.freedOnce
  gone place block here := owned.gone place block (left place block here)

variable [DecidableEq Place]

theorem Owned.release (owned : Owned records freed) (place : Place) :
    Owned (Function.update records place none) (freed ++ (records place).toList) := by
  have kept : Owned (Function.update records place none) freed :=
    owned.fewer fun _ _ here => (update_none_some.mp here).2
  cases found : records place with
  | none => simpa using kept
  | some block =>
      refine ⟨kept.once, ?_, fun other next here inside => ?_⟩
      · refine List.nodup_append.mpr ⟨owned.freedOnce, List.nodup_singleton _, ?_⟩
        rintro old inside new last rfl
        exact owned.gone place block found (List.mem_singleton.mp last ▸ inside)
      · rcases List.mem_append.mp inside with old | last
        · exact kept.gone other next here old
        · obtain rfl : next = block := List.mem_singleton.mp last
          obtain ⟨apart, there⟩ := update_none_some.mp here
          exact apart (owned.once other place next there found)

/-- A place takes a block that is recorded nowhere else and not freed, or none. -/
theorem Owned.record (owned : Owned records freed) (place : Place) {value : Option Block}
    (fresh : ∀ block, value = some block → block ∉ freed ∧
      ∀ other, other ≠ place → records other ≠ some block) :
    Owned (Function.update records place value) freed := by
  refine ⟨update_apart owned.once fun block new => (fresh block new).2, owned.freedOnce,
    fun other block here => ?_⟩
  rcases update_some.mp here with ⟨_, new⟩ | ⟨_, old⟩
  · exact (fresh block new).1
  · exact owned.gone other block old

end BlockLedger
