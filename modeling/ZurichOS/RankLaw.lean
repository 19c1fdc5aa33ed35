import Mathlib.Order.Bounds.Basic

/-!
Ranks that are handed on: a task has the least of its own base rank and the ranks of the others
that wait for it.  A change at one task keeps the law exactly if the task itself gets the rank it
is owed and the tasks that it waits for need not move.
-/

namespace RankLaw

variable {Task Rank : Type} [LinearOrder Rank]

structure Ranks (Task Rank : Type) where
  base : Task → Rank
  rank : Task → Rank
  waitsFor : Task → Task → Prop

/-- The rank a task is to have. -/
def Ranks.Owed (r : Ranks Task Rank) (task : Task) (rank : Rank) : Prop :=
  IsLeast (insert (r.base task) (r.rank '' {other | other ≠ task ∧ r.waitsFor other task})) rank

def Ranks.Lawful (r : Ranks Task Rank) : Prop := ∀ task, r.Owed task (r.rank task)

/-- With the task at this rank, those that it waits for are in order as they are. -/
def Ranks.Unmoved (r : Ranks Task Rank) (task : Task) (rank : Rank) : Prop :=
  ∀ owner, owner ≠ task → r.waitsFor task owner → r.rank owner ≤ rank ∧
    (r.rank owner = r.base owner ∨ r.rank owner = rank ∨
      ∃ other, other ≠ owner ∧ other ≠ task ∧ r.waitsFor other owner ∧
        r.rank other = r.rank owner)

/-- Nothing has changed but the ranks of one task and who waits for it. -/
structure ChangesAt (r after : Ranks Task Rank) (task : Task) : Prop where
  base : ∀ other, other ≠ task → after.base other = r.base other
  rank : ∀ other, other ≠ task → after.rank other = r.rank other
  waits : ∀ other owner, owner ≠ task → (after.waitsFor other owner ↔ r.waitsFor other owner)

section Change

variable {r after : Ranks Task Rank} {task : Task} {rank : Rank}

theorem Ranks.owed_iff : r.Owed task rank ↔
    rank ≤ r.base task ∧ (∀ other, other ≠ task → r.waitsFor other task → rank ≤ r.rank other) ∧
      (rank = r.base task ∨ ∃ other, other ≠ task ∧ r.waitsFor other task ∧ r.rank other = rank) := by
  unfold Ranks.Owed IsLeast
  rw [mem_lowerBounds, Set.forall_mem_insert, Set.forall_mem_image, Set.mem_insert_iff,
    Set.mem_image]
  constructor
  · rintro ⟨attained, base, others⟩
    refine ⟨base, fun other apart waits => others ⟨apart, waits⟩, attained.imp_right ?_⟩
    rintro ⟨other, ⟨apart, waits⟩, same⟩
    exact ⟨other, apart, waits, same⟩
  · rintro ⟨base, others, attained⟩
    refine ⟨attained.imp_right ?_, base, fun other both => others other both.1 both.2⟩
    rintro ⟨other, apart, waits, same⟩
    exact ⟨other, ⟨apart, waits⟩, same⟩

/-- A task that keeps its rank moves nobody. -/
theorem Ranks.Lawful.unmoved (lawful : r.Lawful) (task : Task) : r.Unmoved task (r.rank task) := by
  intro owner apart waits
  obtain ⟨_, others, attained⟩ := owed_iff.mp (lawful owner)
  refine ⟨others task (Ne.symm apart) waits, attained.imp_right ?_⟩
  rintro ⟨other, notOwner, otherWaits, same⟩
  by_cases own : other = task
  · exact .inl (own ▸ same.symm)
  · exact .inr ⟨other, notOwner, own, otherWaits, same⟩

theorem Ranks.Lawful.change_iff (lawful : r.Lawful) (changes : ChangesAt r after task) :
    after.Lawful ↔ after.Owed task (after.rank task) ∧ r.Unmoved task (after.rank task) := by
  constructor
  · refine fun kept => ⟨kept task, fun owner apart waits => ?_⟩
    obtain ⟨_, others, attained⟩ := owed_iff.mp (kept owner)
    rw [changes.base owner apart, changes.rank owner apart] at attained
    rw [changes.rank owner apart] at others
    refine ⟨others task (Ne.symm apart) ((changes.waits task owner apart).mpr waits),
      attained.imp_right ?_⟩
    rintro ⟨other, notOwner, otherWaits, same⟩
    by_cases own : other = task
    · exact .inl (own ▸ same.symm)
    · rw [changes.rank other own] at same
      exact .inr ⟨other, notOwner, own, (changes.waits other owner apart).mp otherWaits, same⟩
  · rintro ⟨owed, unmoved⟩ owner
    by_cases apart : owner = task
    · exact apart ▸ owed
    obtain ⟨base, others, attained⟩ := owed_iff.mp (lawful owner)
    rw [owed_iff, changes.base owner apart, changes.rank owner apart]
    refine ⟨base, fun other notOwner waits => ?_, ?_⟩
    · have before := (changes.waits other owner apart).mp waits
      by_cases own : other = task
      · subst own
        exact (unmoved owner apart before).1
      · rw [changes.rank other own]
        exact others other notOwner before
    · rcases attained with isBase | ⟨other, notOwner, waits, same⟩
      · exact .inl isBase
      · by_cases own : other = task
        · subst own
          rcases (unmoved owner apart waits).2 with isBase | isRank |
            ⟨third, notThird, notOwn, thirdWaits, equal⟩
          · exact .inl isBase
          · exact .inr ⟨other, notOwner, (changes.waits other owner apart).mpr waits, isRank.symm⟩
          · refine .inr ⟨third, notThird, (changes.waits third owner apart).mpr thirdWaits, ?_⟩
            rw [changes.rank third notOwn, equal]
        · refine .inr ⟨other, notOwner, (changes.waits other owner apart).mpr waits, ?_⟩
          rw [changes.rank other own, same]

theorem ChangesAt.owed_iff (changes : ChangesAt r after task) : after.Owed task rank ↔
    rank ≤ after.base task ∧
      (∀ other, other ≠ task → after.waitsFor other task → rank ≤ r.rank other) ∧
      (rank = after.base task ∨
        ∃ other, other ≠ task ∧ after.waitsFor other task ∧ r.rank other = rank) := by
  rw [Ranks.owed_iff]
  refine and_congr_right fun _ => and_congr ?_ (or_congr_right ?_)
  · exact forall_congr' fun other => forall_congr' fun apart => by rw [changes.rank other apart]
  · refine exists_congr fun other => and_congr_right fun apart => ?_
    rw [changes.rank other apart]

/-- More tasks wait for a task that keeps its rank. -/
theorem Ranks.Lawful.join_iff (lawful : r.Lawful) (changes : ChangesAt r after task)
    (base : after.base task = r.base task) (rank : after.rank task = r.rank task)
    (joins : Task → Prop)
    (waits : ∀ other, after.waitsFor other task ↔ r.waitsFor other task ∨ joins other) :
    after.Lawful ↔ ∀ other, other ≠ task → joins other → r.rank task ≤ r.rank other := by
  obtain ⟨baseBound, others, attained⟩ := Ranks.owed_iff.mp (lawful task)
  rw [lawful.change_iff changes, rank, and_iff_left (lawful.unmoved task), changes.owed_iff, base]
  constructor
  · rintro ⟨_, bound, _⟩ other apart joined
    exact bound other apart ((waits other).mpr (.inr joined))
  · intro bound
    refine ⟨baseBound, fun other apart waiting => ?_, attained.imp_right ?_⟩
    · exact ((waits other).mp waiting).elim (others other apart) (bound other apart)
    · rintro ⟨other, apart, waiting, same⟩
      exact ⟨other, apart, (waits other).mpr (.inl waiting), same⟩

end Change

end RankLaw
