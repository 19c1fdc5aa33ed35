import ZurichOS.RankLaw
import ZurichOS.SyncCore

set_option linter.all false

/-!
Priorities of the tasks under all mutexes at once.  A task that has to wait for a mutex lends
its priority to the owner, and an unlock takes back all that the owner was lent.
-/

namespace ZurichOS

open Transitions RankLaw

variable {Ref Lock : Type}

/-- The tasks, the mutexes and who waits in the queue of each. -/
structure PriorityState (Ref Lock : Type) where
  tasks : Ref → Task Ref
  mutexes : Lock → Mutex Ref
  waiters : Lock → List Ref

def PriorityState.object (s : PriorityState Ref Lock) (mutex : Lock) : MutexObject Ref :=
  ⟨s.mutexes mutex, s.tasks⟩

/-- A `lock` is one round of the loop in `mutex_lock`, `entry` being what `kmalloc` returns for
the entry in the queue. -/
inductive PriorityCall (Ref Lock : Type) where
  | lock (task : Ref) (mutex : Lock) (entry : Nat)
  | trylock (task : Ref) (mutex : Lock)
  | unlock (mutex : Lock)
  | setPriority (task : Ref) (priority : Nat)

/-- Base and effective priorities, and who is blocked on a mutex of whom. -/
def PriorityState.ranks (s : PriorityState Ref Lock) : Ranks Ref Nat where
  base task := (s.tasks task).basePriority
  rank task := (s.tasks task).priority
  waitsFor task owner := ∃ mutex, (s.mutexes mutex).ownerTask = some owner ∧
    task ∈ s.waiters mutex

structure PriorityStart (s : PriorityState Ref Lock) : Prop where
  mutexes : ∀ mutex, s.mutexes mutex = mutexInit
  waiters : ∀ mutex, s.waiters mutex = []
  base : ∀ task, (s.tasks task).priority = (s.tasks task).basePriority

structure PrioritySound (s : PriorityState Ref Lock) : Prop where
  lawful : s.ranks.Lawful
  free : ∀ mutex, (s.mutexes mutex).locked = 0 → (s.mutexes mutex).ownerTask = none

/-- No task that is still queued for the mutex comes before the one that takes it. -/
def Outranks (s : PriorityState Ref Lock) (task : Ref) (mutex : Lock) : Prop :=
  ∀ waiter ∈ s.waiters mutex, waiter ≠ task →
    (s.tasks task).priority ≤ (s.tasks waiter).priority

/-- The calls after which every priority is what it should be. -/
def KeepsRanks (s : PriorityState Ref Lock) : PriorityCall Ref Lock → Prop
  | .lock task mutex entry =>
      ((s.mutexes mutex).locked = 0 → Outranks s task mutex) ∧
      ((s.mutexes mutex).locked ≠ 0 → ∀ owner, (s.mutexes mutex).ownerTask = some owner →
        (s.tasks task).priority < (s.tasks owner).priority →
          entry ≠ 0 ∧ s.ranks.Unmoved owner (s.tasks task).priority)
  | .trylock task mutex => (s.mutexes mutex).locked = 0 → Outranks s task mutex
  | .unlock mutex => ∀ owner, (s.mutexes mutex).ownerTask = some owner →
      (∀ other, other ≠ mutex → (s.mutexes other).ownerTask = some owner →
        ∀ waiter ∈ s.waiters other, waiter ≠ owner →
          (s.tasks owner).basePriority ≤ (s.tasks waiter).priority) ∧
      s.ranks.Unmoved owner (s.tasks owner).basePriority
  | .setPriority task priority =>
      let inherited := (s.tasks task).inheritedPriority
      (∀ waiter, waiter ≠ task → s.ranks.waitsFor waiter task →
        (s.tasks waiter).priority < priority →
          inherited ≠ 0 ∧ inherited ≤ (s.tasks waiter).priority) ∧
      (inherited ≠ 0 → inherited < priority → ∃ waiter, waiter ≠ task ∧
        s.ranks.waitsFor waiter task ∧ (s.tasks waiter).priority = inherited) ∧
      s.ranks.Unmoved task (if inherited = 0 then priority else min inherited priority)

theorem PriorityStart.sound {s : PriorityState Ref Lock} (start : PriorityStart s) :
    PrioritySound s := by
  refine ⟨fun task => Ranks.owed_iff.mpr ⟨(start.base task).le, ?_, .inl (start.base task)⟩,
    fun mutex _ => by rw [start.mutexes, mutexInit]⟩
  rintro other _ ⟨mutex, _, member⟩
  rw [start.waiters] at member
  cases member

variable [DecidableEq Lock]

def PriorityState.setObject (s : PriorityState Ref Lock) (mutex : Lock) (o : MutexObject Ref) :
    PriorityState Ref Lock :=
  { s with tasks := o.tasks, mutexes := Function.update s.mutexes mutex o.mutex }

def PriorityState.setWaiters (s : PriorityState Ref Lock) (mutex : Lock) (waiters : List Ref) :
    PriorityState Ref Lock :=
  { s with waiters := Function.update s.waiters mutex waiters }

/-- `address` is where the mutexes lie. -/
def PriorityState.call [DecidableEq Ref] (address : Lock → Nat) (s : PriorityState Ref Lock) :
    PriorityCall Ref Lock → PriorityState Ref Lock
  | .lock task mutex entry =>
      let result := mutexLockSection (address mutex) (s.object mutex) (some task)
      let s := s.setObject mutex result.2
      if result.1 = true ∨ entry = 0 then s else s.setWaiters mutex (s.waiters mutex ++ [task])
  | .trylock task mutex => s.setObject mutex (mutexTrylock (s.object mutex) (some task)).2
  | .unlock mutex =>
      (s.setObject mutex (mutexUnlockSection (s.object mutex))).setWaiters mutex
        (s.waiters mutex).tail
  | .setPriority task priority =>
      { s with tasks := Function.update s.tasks task (taskSetPriority (s.tasks task) priority) }

section Calls

variable {s after : PriorityState Ref Lock} {address : Lock → Nat} {task owner : Ref} {mutex : Lock}

structure Took (s after : PriorityState Ref Lock) (task : Ref) (mutex : Lock) : Prop where
  base : ∀ other, (after.tasks other).basePriority = (s.tasks other).basePriority
  rank : ∀ other, (after.tasks other).priority = (s.tasks other).priority
  mutexes : after.mutexes = Function.update s.mutexes mutex ⟨1, (s.tasks task).tid, some task⟩
  waiters : after.waiters = s.waiters

theorem Took.waitsFor_iff (took : Took s after task mutex)
    (noOwner : (s.mutexes mutex).ownerTask = none) (waiter owner : Ref) :
    after.ranks.waitsFor waiter owner ↔
      s.ranks.waitsFor waiter owner ∨ owner = task ∧ waiter ∈ s.waiters mutex := by
  have owners : ∀ other, (after.mutexes other).ownerTask =
      if other = mutex then some task else (s.mutexes other).ownerTask := by
    intro other
    rw [took.mutexes, Function.update_apply]
    split <;> rfl
  simp only [PriorityState.ranks, owners, took.waiters]
  constructor
  · rintro ⟨other, isOwner, member⟩
    split at isOwner
    · rename_i same
      exact .inr ⟨(Option.some.inj isOwner).symm, same ▸ member⟩
    · exact .inl ⟨other, isOwner, member⟩
  · rintro (⟨other, isOwner, member⟩ | ⟨rfl, member⟩)
    · refine ⟨other, ?_, member⟩
      rw [if_neg, isOwner]
      rintro rfl
      rw [noOwner] at isOwner
      cases isOwner
    · exact ⟨mutex, if_pos rfl, member⟩

theorem Took.lawful_iff (took : Took s after task mutex) (sound : PrioritySound s)
    (free : (s.mutexes mutex).locked = 0) :
    after.ranks.Lawful ↔ Outranks s task mutex := by
  have waits := took.waitsFor_iff (sound.free mutex free)
  have changes : ChangesAt s.ranks after.ranks task :=
    ⟨fun other _ => took.base other, fun other _ => took.rank other, fun waiter owner apart => by
      simp [waits, apart]⟩
  rw [sound.lawful.join_iff changes (took.base task) (took.rank task)
    (fun waiter => waiter ∈ s.waiters mutex) fun waiter => by simp [waits]]
  exact forall_congr' fun waiter => imp.swap

theorem setObject_same (s : PriorityState Ref Lock) {o : MutexObject Ref}
    (same : o.mutex = s.mutexes mutex) : (s.setObject mutex o).mutexes = s.mutexes := by
  rw [PriorityState.setObject, same]
  exact Function.update_eq_self mutex s.mutexes

theorem ranks_unowned (noOwner : (s.mutexes mutex).ownerTask = none)
    (tasks : after.tasks = s.tasks) (owners : ∀ other, (after.mutexes other).ownerTask =
      (s.mutexes other).ownerTask)
    (waiters : ∀ other, other ≠ mutex → after.waiters other = s.waiters other) :
    after.ranks = s.ranks := by
  unfold PriorityState.ranks
  rw [tasks]
  congr 1
  funext waiter owner
  refine propext (exists_congr fun place => ?_)
  rw [owners]
  by_cases here : place = mutex
  · rw [here, noOwner]
    simp
  · rw [waiters place here]

theorem taskBoostPriority_basePriority (t : Task Ref) (priority : Nat) :
    (taskBoostPriority t priority).basePriority = t.basePriority := by
  unfold taskBoostPriority
  dsimp only
  split <;> split <;> rfl

theorem taskBoostPriority_priority (t : Task Ref) (priority : Nat) :
    (taskBoostPriority t priority).priority = min priority t.priority := by
  have recorded : ∀ boosted : Task Ref, boosted.priority = t.priority →
      (if priority < boosted.priority then { boosted with priority } else boosted).priority =
        min priority t.priority := by
    intro boosted same
    split
    · show priority = min priority t.priority
      omega
    · omega
  unfold taskBoostPriority
  dsimp only
  split
  · exact recorded _ rfl
  · exact recorded _ rfl

/-- The task waits in the queue, and its owner has been lent its priority. -/
structure Refused [DecidableEq Ref] (s after : PriorityState Ref Lock) (task owner : Ref)
    (mutex : Lock) (entry : Nat) : Prop where
  base : ∀ other, (after.tasks other).basePriority = (s.tasks other).basePriority
  rank : ∀ other, (after.tasks other).priority =
    if other = owner then min (s.tasks task).priority (s.tasks owner).priority
    else (s.tasks other).priority
  mutexes : after.mutexes = s.mutexes
  waiters : ∀ other, after.waiters other =
    if other = mutex ∧ entry ≠ 0 then s.waiters other ++ [task] else s.waiters other

/-- The owner has its base priority, and the first waiter is out of the queue. -/
structure Released [DecidableEq Ref] (s after : PriorityState Ref Lock) (owner : Ref)
    (mutex : Lock) : Prop where
  base : ∀ other, (after.tasks other).basePriority = (s.tasks other).basePriority
  rank : ∀ other, (after.tasks other).priority =
    if other = owner then (s.tasks owner).basePriority else (s.tasks other).priority
  mutexes : after.mutexes = Function.update s.mutexes mutex mutexInit
  waiters : ∀ other, other ≠ mutex → after.waiters other = s.waiters other

variable [DecidableEq Ref]

theorem Refused.waitsFor_iff {entry : Nat} (refused : Refused s after task owner mutex entry)
    (isOwner : (s.mutexes mutex).ownerTask = some owner) (waiter other : Ref) :
    after.ranks.waitsFor waiter other ↔
      s.ranks.waitsFor waiter other ∨ other = owner ∧ waiter = task ∧ entry ≠ 0 := by
  simp only [PriorityState.ranks, refused.mutexes, refused.waiters]
  constructor
  · rintro ⟨place, isOther, member⟩
    split at member
    · rename_i here
      rw [here.1, isOwner] at isOther
      rcases List.mem_append.mp member with before | new
      · exact .inl ⟨place, by rw [here.1, isOwner, isOther], before⟩
      · exact .inr ⟨(Option.some.inj isOther).symm, List.mem_singleton.mp new, here.2⟩
    · exact .inl ⟨place, isOther, member⟩
  · rintro (⟨place, isOther, member⟩ | ⟨rfl, rfl, given⟩)
    · refine ⟨place, isOther, ?_⟩
      split
      · exact List.mem_append_left _ member
      · exact member
    · exact ⟨mutex, isOwner, by simp [given]⟩

/-- A loan keeps the law exactly if the lender is in the queue and the tasks that the owner itself
waits for need not move. -/
theorem Refused.lent_iff {entry : Nat} (refused : Refused s after task owner mutex entry)
    (sound : PrioritySound s) (isOwner : (s.mutexes mutex).ownerTask = some owner)
    (changes : ChangesAt s.ranks after.ranks owner)
    (lends : (s.tasks task).priority < (s.tasks owner).priority) :
    after.ranks.Lawful ↔ entry ≠ 0 ∧ s.ranks.Unmoved owner (s.tasks task).priority := by
  have waits := refused.waitsFor_iff isOwner
  have lent : after.ranks.rank owner = (s.tasks task).priority :=
    (refused.rank owner).trans ((if_pos rfl).trans (min_eq_left lends.le))
  obtain ⟨baseBound, others, _⟩ := Ranks.owed_iff.mp (sound.lawful owner)
  have base : after.ranks.base owner = (s.tasks owner).basePriority := refused.base owner
  have apart : task ≠ owner := by
    rintro rfl
    exact lends.false
  rw [sound.lawful.change_iff changes, lent, changes.owed_iff, base]
  refine and_congr_left fun _ => ?_
  constructor
  · -- What the owner had was the least of what it was owed.
    rintro ⟨_, _, attained⟩ rfl
    rcases attained with isBase | ⟨other, notOwner, waiting, same⟩
    · exact absurd (isBase ▸ baseBound) lends.not_ge
    · have before := ((waits other owner).mp waiting).resolve_right (by simp)
      exact absurd (same ▸ others other notOwner before) lends.not_ge
  · intro given
    refine ⟨lends.le.trans baseBound, fun other notOwner waiting => ?_,
      .inr ⟨task, apart, (waits task owner).mpr (.inr ⟨rfl, rfl, given⟩), rfl⟩⟩
    rcases (waits other owner).mp waiting with before | ⟨_, rfl, _⟩
    · exact lends.le.trans (others other notOwner before)
    · exact le_rfl

theorem Refused.lawful_iff {entry : Nat} (refused : Refused s after task owner mutex entry)
    (sound : PrioritySound s) (isOwner : (s.mutexes mutex).ownerTask = some owner) :
    after.ranks.Lawful ↔ ((s.tasks task).priority < (s.tasks owner).priority →
      entry ≠ 0 ∧ s.ranks.Unmoved owner (s.tasks task).priority) := by
  have waits := refused.waitsFor_iff isOwner
  have changes : ChangesAt s.ranks after.ranks owner :=
    ⟨fun other _ => refused.base other,
      fun other apart => (refused.rank other).trans (if_neg apart),
      fun waiter other apart => by simp [waits, apart]⟩
  by_cases lends : (s.tasks task).priority < (s.tasks owner).priority
  · rw [refused.lent_iff sound isOwner changes lends]
    exact ⟨fun both _ => both, fun both => both lends⟩
  · have kept : after.ranks.rank owner = s.ranks.rank owner :=
      (refused.rank owner).trans ((if_pos rfl).trans (min_eq_right (not_lt.mp lends)))
    rw [sound.lawful.join_iff changes (refused.base owner) kept
      (fun waiter => waiter = task ∧ entry ≠ 0) fun waiter => by simp [waits]]
    refine iff_of_true (fun other _ joins => ?_) fun less => absurd less lends
    rw [joins.1]
    exact not_lt.mp lends

theorem Released.lawful_iff (released : Released s after owner mutex) (sound : PrioritySound s)
    (isOwner : (s.mutexes mutex).ownerTask = some owner) :
    after.ranks.Lawful ↔ (∀ other, other ≠ mutex → (s.mutexes other).ownerTask = some owner →
      ∀ waiter ∈ s.waiters other, waiter ≠ owner →
        (s.tasks owner).basePriority ≤ (s.tasks waiter).priority) ∧
      s.ranks.Unmoved owner (s.tasks owner).basePriority := by
  have waits : ∀ waiter other, after.ranks.waitsFor waiter other ↔
      ∃ place, place ≠ mutex ∧ (s.mutexes place).ownerTask = some other ∧
        waiter ∈ s.waiters place := by
    intro waiter other
    simp only [PriorityState.ranks, released.mutexes, Function.update_apply]
    refine exists_congr fun place => ?_
    by_cases here : place = mutex
    · simp [here, mutexInit]
    · simp [here, released.waiters place here]
  have changes : ChangesAt s.ranks after.ranks owner := by
    refine ⟨fun other _ => released.base other,
      fun other apart => (released.rank other).trans (if_neg apart), fun waiter other apart => ?_⟩
    rw [waits]
    refine exists_congr fun place => ⟨fun both => both.2, fun both => ⟨?_, both⟩⟩
    rintro rfl
    exact apart (Option.some.inj (both.1.symm.trans isOwner))
  have rank : after.ranks.rank owner = (s.tasks owner).basePriority :=
    (released.rank owner).trans (if_pos rfl)
  have base : after.ranks.base owner = (s.tasks owner).basePriority := released.base owner
  rw [sound.lawful.change_iff changes, rank, changes.owed_iff, base]
  refine and_congr_left fun _ => ?_
  simp only [le_refl, true_and, true_or, and_true, waits]
  constructor
  · intro bound other apart isOther waiter member notOwner
    exact bound waiter notOwner ⟨other, apart, isOther, member⟩
  · rintro bound waiter notOwner ⟨other, apart, isOther, member⟩
    exact bound other apart isOther waiter member notOwner

theorem lock_took (free : (s.mutexes mutex).locked = 0) (entry : Nat) :
    Took s (s.call address (.lock task mutex entry)) task mutex := by
  have result : mutexLockSection (address mutex) (s.object mutex) (some task) = (true,
      ({ s.object mutex with mutex := ⟨1, (s.tasks task).tid, some task⟩ } : MutexObject Ref).setTask
        task { s.tasks task with waitingOn := 0 }) := by
    simp only [mutexLockSection, PriorityState.object, free, if_true, currentTid]
  simp only [PriorityState.call, result, true_or, if_true]
  refine ⟨fun other => ?_, fun other => ?_, rfl, rfl⟩ <;>
    simp only [PriorityState.setObject, MutexObject.setTask, PriorityState.object,
      Function.update_apply]
  · split
    · rename_i own
      rw [own]
    · rfl
  · split
    · rename_i own
      rw [own]
    · rfl

theorem trylock_took (free : (s.mutexes mutex).locked = 0) :
    Took s (s.call address (.trylock task mutex)) task mutex := by
  simp only [PriorityState.call, mutexTrylock, PriorityState.object, free, if_true,
    PriorityState.setObject]
  exact ⟨fun _ => rfl, fun _ => rfl, rfl, rfl⟩

theorem object_setTask (o : MutexObject Ref) (task other : Ref) (content : Task Ref) :
    (o.setTask task content).tasks other = if other = task then content else o.tasks other :=
  Function.update_apply o.tasks task content other

theorem mutexLockSection_owned {place : Nat} {o : MutexObject Ref} (locked : o.mutex.locked ≠ 0)
    (isOwner : o.mutex.ownerTask = some owner) :
    ∃ after, mutexLockSection place o (some task) = (false, after) ∧ after.mutex = o.mutex ∧
      ∀ other, (after.tasks other).basePriority = (o.tasks other).basePriority ∧
        (after.tasks other).priority =
          if other = owner then min (o.tasks task).priority (o.tasks owner).priority
          else (o.tasks other).priority := by
  let lent := if (o.tasks task).priority < (o.tasks owner).priority then
    o.setTask owner (taskBoostPriority (o.tasks owner) (o.tasks task).priority) else o
  have lentMutex : lent.mutex = o.mutex := by
    unfold lent
    split <;> rfl
  have lentTasks : ∀ other, (lent.tasks other).basePriority = (o.tasks other).basePriority ∧
      (lent.tasks other).priority =
        if other = owner then min (o.tasks task).priority (o.tasks owner).priority
        else (o.tasks other).priority := by
    intro other
    unfold lent
    split
    · rw [object_setTask]
      split
      · rename_i own
        rw [taskBoostPriority_basePriority, taskBoostPriority_priority, own]
        exact ⟨rfl, rfl⟩
      · exact ⟨rfl, rfl⟩
    · rename_i notLess
      refine ⟨rfl, ?_⟩
      split
      · rename_i own
        rw [own, min_eq_right (not_lt.mp notLess)]
      · rfl
  refine ⟨lent.setTask task { lent.tasks task with waitingOn := place }, ?_, lentMutex,
    fun other => ?_⟩
  · unfold mutexLockSection
    dsimp only
    rw [if_neg locked, isOwner]
    rfl
  · rw [object_setTask]
    split
    · rename_i isTask
      rw [isTask]
      exact lentTasks task
    · exact lentTasks other

theorem lock_refused (locked : (s.mutexes mutex).locked ≠ 0)
    (isOwner : (s.mutexes mutex).ownerTask = some owner) (entry : Nat) :
    Refused s (s.call address (.lock task mutex entry)) task owner mutex entry := by
  obtain ⟨o, result, same, tasks⟩ :=
    @mutexLockSection_owned _ task owner _ (address mutex) (s.object mutex) locked isOwner
  have mutexes := setObject_same s same
  simp only [PriorityState.call, result, Bool.false_eq_true, false_or]
  by_cases given : entry = 0
  · rw [if_pos given]
    exact ⟨fun other => (tasks other).1, fun other => (tasks other).2, mutexes,
      fun other => by simp [given, PriorityState.setObject]⟩
  · rw [if_neg given]
    refine ⟨fun other => (tasks other).1, fun other => (tasks other).2, mutexes, fun other => ?_⟩
    simp only [PriorityState.setWaiters, PriorityState.setObject, Function.update_apply]
    split
    · rename_i here
      rw [if_pos ⟨here, given⟩, here]
    · rename_i away
      rw [if_neg fun both => away both.1]

theorem unlock_released (isOwner : (s.mutexes mutex).ownerTask = some owner) :
    Released s (s.call address (.unlock mutex)) owner mutex := by
  have restored : mutexUnlockSection (s.object mutex) =
      ({ s.object mutex with mutex := mutexInit } : MutexObject Ref).setTask owner
        (taskRestorePriority (s.tasks owner)) := by
    simp only [mutexUnlockSection, PriorityState.object, isOwner, mutexInit]
  simp only [PriorityState.call, restored]
  refine ⟨fun other => ?_, fun other => ?_, rfl, fun other away => ?_⟩ <;>
    simp only [PriorityState.setWaiters, PriorityState.setObject, object_setTask]
  · split
    · rename_i own
      rw [own]
      rfl
    · rfl
  · split <;> rfl
  · exact Function.update_of_ne away _ _

theorem lock_unowned (locked : (s.mutexes mutex).locked ≠ 0)
    (noOwner : (s.mutexes mutex).ownerTask = none) (entry : Nat) :
    (s.call address (.lock task mutex entry)).mutexes = s.mutexes ∧
      (s.call address (.lock task mutex entry)).ranks = s.ranks := by
  have result : mutexLockSection (address mutex) (s.object mutex) (some task) =
      (false, s.object mutex) := by
    unfold mutexLockSection
    dsimp only
    rw [if_neg (show (s.object mutex).mutex.locked ≠ 0 from locked),
      show (s.object mutex).mutex.ownerTask = none from noOwner]
  have mutexes := setObject_same s (show (s.object mutex).mutex = s.mutexes mutex from rfl)
  simp only [PriorityState.call, result, Bool.false_eq_true, false_or]
  split
  · exact ⟨mutexes, ranks_unowned noOwner rfl (fun other => by rw [mutexes]) fun _ _ => rfl⟩
  · refine ⟨mutexes, ranks_unowned noOwner rfl (fun other => ?_) fun other away => ?_⟩
    · rw [PriorityState.setWaiters, mutexes]
    · exact Function.update_of_ne away _ _

theorem unlock_unowned (noOwner : (s.mutexes mutex).ownerTask = none) :
    (s.call address (.unlock mutex)).ranks = s.ranks := by
  have result : mutexUnlockSection (s.object mutex) = ⟨mutexInit, s.tasks⟩ := by
    simp only [mutexUnlockSection, PriorityState.object, noOwner, mutexInit]
  simp only [PriorityState.call, result]
  refine ranks_unowned noOwner rfl (fun other => ?_) fun other away => ?_
  · simp only [PriorityState.setWaiters, PriorityState.setObject, Function.update_apply]
    split
    · rename_i here
      rw [here, noOwner, mutexInit]
    · rfl
  · exact Function.update_of_ne away _ _

theorem trylock_failed (locked : (s.mutexes mutex).locked ≠ 0) :
    s.call address (.trylock task mutex) = s := by
  have result : mutexTrylock (s.object mutex) (some task) = (false, s.object mutex) := by
    unfold mutexTrylock
    rw [if_neg (show (s.object mutex).mutex.locked ≠ 0 from locked)]
  simp only [PriorityState.call, result]
  simp only [PriorityState.setObject, PriorityState.object, Function.update_eq_self]

/-- A new base priority counts unless the recorded inherited priority comes before it. -/
theorem setPriority_lawful_iff (sound : PrioritySound s) (priority : Nat) :
    (s.call address (.setPriority task priority)).ranks.Lawful ↔
      KeepsRanks s (.setPriority task priority) := by
  generalize inheritedEq : (s.tasks task).inheritedPriority = inherited
  have ownBase : (s.call address (.setPriority task priority)).ranks.base task = priority := by
    simp [PriorityState.ranks, PriorityState.call, taskSetPriority]
  have own : (s.call address (.setPriority task priority)).ranks.rank task =
      if inherited = 0 then priority else min inherited priority := by
    simp only [PriorityState.ranks, PriorityState.call, Function.update_self, taskSetPriority,
      inheritedEq]
    split <;> split <;> omega
  have changes : ChangesAt s.ranks (s.call address (.setPriority task priority)).ranks task := by
    refine ⟨fun other apart => ?_, fun other apart => ?_, fun _ _ _ => Iff.rfl⟩ <;>
      simp only [PriorityState.ranks, PriorityState.call, Function.update_of_ne apart]
  have waits : ∀ other, (s.call address (.setPriority task priority)).ranks.waitsFor other task ↔
      s.ranks.waitsFor other task := fun _ => Iff.rfl
  rw [sound.lawful.change_iff changes, own, changes.owed_iff, ownBase]
  simp only [KeepsRanks, inheritedEq, waits]
  rw [← and_assoc, ← and_assoc]
  refine and_congr_left fun _ => ?_
  by_cases counts : inherited ≠ 0 ∧ inherited < priority
  · obtain ⟨some, less⟩ := counts
    rw [if_neg some, min_eq_left less.le]
    constructor
    · rintro ⟨⟨_, bound⟩, attained⟩
      exact ⟨fun waiter apart waiting _ => ⟨some, bound waiter apart waiting⟩,
        fun _ _ => attained.resolve_left less.ne⟩
    · rintro ⟨bound, attained⟩
      refine ⟨⟨less.le, fun waiter apart waiting => ?_⟩, .inr (attained some less)⟩
      by_cases before : (s.tasks waiter).priority < priority
      · exact (bound waiter apart waiting before).2
      · exact less.le.trans (not_lt.mp before)
  · have new : (if inherited = 0 then priority else min inherited priority) = priority := by
      split <;> omega
    rw [new]
    constructor
    · rintro ⟨⟨_, bound⟩, _⟩
      exact ⟨fun waiter apart waiting before => absurd before (bound waiter apart waiting).not_gt,
        fun some less => absurd ⟨some, less⟩ counts⟩
    · rintro ⟨bound, _⟩
      refine ⟨⟨le_rfl, fun waiter apart waiting => ?_⟩, .inl rfl⟩
      by_contra before
      obtain ⟨some, less⟩ := bound waiter apart waiting (not_le.mp before)
      exact counts ⟨some, less.trans_lt (not_le.mp before)⟩

/-- After every call the priorities are as they should be exactly if the condition was met. -/
theorem call_lawful_iff (sound : PrioritySound s) (call : PriorityCall Ref Lock) :
    (s.call address call).ranks.Lawful ↔ KeepsRanks s call := by
  cases call with
  | lock task mutex entry =>
      by_cases free : (s.mutexes mutex).locked = 0
      · rw [(lock_took free entry).lawful_iff sound free]
        simp [KeepsRanks, free]
      · cases isOwner : (s.mutexes mutex).ownerTask with
        | none =>
            rw [(lock_unowned free isOwner entry).2]
            exact iff_of_true sound.lawful
              ⟨fun isFree => absurd isFree free, fun _ owner same => by simp [isOwner] at same⟩
        | some owner =>
            rw [(lock_refused free isOwner entry).lawful_iff sound isOwner]
            simp [KeepsRanks, free, isOwner]
  | trylock task mutex =>
      by_cases free : (s.mutexes mutex).locked = 0
      · rw [(trylock_took free).lawful_iff sound free]
        simp [KeepsRanks, free]
      · rw [trylock_failed free]
        exact iff_of_true sound.lawful fun isFree => absurd isFree free
  | unlock mutex =>
      cases isOwner : (s.mutexes mutex).ownerTask with
      | none =>
          rw [unlock_unowned isOwner]
          exact iff_of_true sound.lawful fun owner same => by simp [isOwner] at same
      | some owner =>
          rw [(unlock_released isOwner).lawful_iff sound isOwner]
          simp [KeepsRanks, isOwner]
  | setPriority task priority => exact setPriority_lawful_iff sound priority

theorem PrioritySound.call_free (sound : PrioritySound s) (call : PriorityCall Ref Lock)
    (place : Lock) (free : ((s.call address call).mutexes place).locked = 0) :
    ((s.call address call).mutexes place).ownerTask = none := by
  have updated : ∀ {mutex : Lock} {content : Mutex Ref},
      (s.call address call).mutexes = Function.update s.mutexes mutex content →
      (content.locked = 0 → content.ownerTask = none) →
      ((s.call address call).mutexes place).ownerTask = none := by
    intro mutex content same contentFree
    rw [same, Function.update_apply] at free ⊢
    split
    · rename_i here
      rw [if_pos here] at free
      exact contentFree free
    · rename_i away
      rw [if_neg away] at free
      exact sound.free place free
  cases call with
  | lock task mutex entry =>
      by_cases isFree : (s.mutexes mutex).locked = 0
      · exact updated (lock_took isFree entry).mutexes fun isZero => by cases isZero
      · have kept : (s.call address (.lock task mutex entry)).mutexes = s.mutexes := by
          cases isOwner : (s.mutexes mutex).ownerTask with
          | none => exact (lock_unowned isFree isOwner entry).1
          | some owner => exact (lock_refused isFree isOwner entry).mutexes
        rw [kept] at free ⊢
        exact sound.free place free
  | trylock task mutex =>
      by_cases isFree : (s.mutexes mutex).locked = 0
      · exact updated (trylock_took isFree).mutexes fun isZero => by cases isZero
      · rw [trylock_failed isFree] at free ⊢
        exact sound.free place free
  | unlock mutex =>
      have opened : (mutexUnlockSection (s.object mutex)).mutex = mutexInit := by
        unfold mutexUnlockSection
        dsimp only
        split <;> rfl
      have after : (s.call address (.unlock mutex)).mutexes =
          Function.update s.mutexes mutex (mutexUnlockSection (s.object mutex)).mutex := rfl
      exact updated after fun _ => by rw [opened, mutexInit]
  | setPriority task priority => exact sound.free place free

end Calls

variable [DecidableEq Ref]

/-- In a run from free mutexes and tasks at their base priorities, every priority is after each
call the least of the base priority and those of the tasks blocked on the task's mutexes exactly
if each call meets the condition. -/
theorem priority_inheritance_iff (address : Lock → Nat) {s : PriorityState Ref Lock}
    (start : PriorityStart s) (calls : List (PriorityCall Ref Lock)) :
    Along (PriorityState.call address)
        (fun s call => (s.call address call).ranks.Lawful) s calls ↔
      Along (PriorityState.call address) KeepsRanks s calls :=
  along_iff PrioritySound (fun s => s.ranks.Lawful) (fun _ sound => sound.lawful)
    (fun _ call sound kept => ⟨(call_lawful_iff sound call).mpr kept, sound.call_free call⟩)
    (fun _ call sound lawful => (call_lawful_iff sound call).mp lawful) start.sound calls

/-- Two tasks of base priorities 20 and 5, and two free mutexes. -/
def twoTasks : PriorityState (Fin 2) (Fin 2) where
  tasks task := { Task.zero (Fin 2) with
    tid := task + 1, priority := if task = 0 then 20 else 5
    basePriority := if task = 0 then 20 else 5 }
  mutexes _ := mutexInit
  waiters _ := []

theorem twoTasks_start : PriorityStart twoTasks := ⟨fun _ => rfl, fun _ => rfl, fun _ => rfl⟩

theorem priority_inheritance_iff_twoTasks :
    Along (PriorityState.call fun mutex => 0xD0000000 + 32 * mutex.val)
        (fun s call => (s.call (fun mutex => 0xD0000000 + 32 * mutex.val) call).ranks.Lawful)
        twoTasks [.lock 0 0 0xD0001018, .lock 1 0 0xD0001018, .unlock 0] ↔
      Along (PriorityState.call fun mutex => 0xD0000000 + 32 * mutex.val) KeepsRanks
        twoTasks [.lock 0 0 0xD0001018, .lock 1 0 0xD0001018, .unlock 0] :=
  priority_inheritance_iff _ twoTasks_start _

/-- The owner of two mutexes unlocks the one that nobody waits for, and loses the priority of the
task that waits for the other. -/
theorem mutex_unlock_drops_priority :
    ¬ ∀ calls, Along (PriorityState.call fun mutex => 0xD0000000 + 32 * mutex.val)
      (fun s call => (s.call (fun mutex => 0xD0000000 + 32 * mutex.val) call).ranks.Lawful)
      twoTasks calls := by
  intro lawful
  have last := (lawful ([.lock 0 0 0xD0001018, .lock 0 1 0xD0001018, .lock 1 0 0xD0001018] ++
    [.unlock 1])).last
  obtain ⟨_, others, _⟩ := Ranks.owed_iff.mp (last 0)
  have bound := others 1 (by decide) ⟨0, by decide, by decide⟩
  revert bound
  decide

end ZurichOS
