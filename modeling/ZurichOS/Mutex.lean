import ZurichOS.SyncCore

/-!
Mutual exclusion of the mutex: in every interleaving of tasks that lock, try and wait,
and unlock only what they hold, the mutex names its one holder.
-/

namespace ZurichOS

open WaitProtocol Transitions

variable {Ref : Type} {o after : MutexObject Ref}

variable {s : State Ref Unit (MutexObject Ref)}

/-- The mutex is free and nobody holds it, or it names the one task that does. -/
def MutexOwned (s : State Ref Unit (MutexObject Ref)) : Prop :=
  (s.object.mutex.locked = 0 ∧ ∀ task, s.holds task () = 0) ∨
    ∃ holder, s.object.mutex = ⟨1, (s.object.tasks holder).tid, some holder⟩ ∧
      s.holds holder () = 1 ∧ ∀ task, task ≠ holder → s.holds task () = 0

def MutexStart (s : State Ref Unit (MutexObject Ref)) : Prop :=
  Fresh s ∧ s.object.mutex = mutexInit

def SameTids (o after : MutexObject Ref) : Prop :=
  ∀ task, (after.tasks task).tid = (o.tasks task).tid

theorem SameTids.trans {middle : MutexObject Ref} (first : SameTids o middle)
    (second : SameTids middle after) : SameTids o after :=
  fun task => (second task).trans (first task)

theorem taskBoostPriority_tid (task : Task Ref) (priority : Nat) :
    (taskBoostPriority task priority).tid = task.tid := by
  unfold taskBoostPriority
  dsimp only
  split <;> split <;> rfl

theorem mutexTrylock_acquired {task : Ref}
    (result : mutexTrylock o (some task) = (true, after)) :
    o.mutex.locked = 0 ∧ after.mutex = ⟨1, (o.tasks task).tid, some task⟩ ∧
      SameTids o after := by
  simp only [mutexTrylock] at result
  split at result
  · rename_i free
    cases result
    exact ⟨free, rfl, fun _ => rfl⟩
  · cases result

theorem mutexTrylock_failed {task : Ref}
    (result : mutexTrylock o (some task) = (false, after)) :
    o.mutex.locked ≠ 0 ∧ after = o := by
  simp only [mutexTrylock] at result
  split at result
  · cases result
  · rename_i locked
    cases result
    exact ⟨locked, rfl⟩

theorem MutexOwned.frame (owned : MutexOwned s) {later : State Ref Unit (MutexObject Ref)}
    (mutex : later.object.mutex = s.object.mutex) (tids : SameTids s.object later.object)
    (holds : later.holds = s.holds) : MutexOwned later := by
  rcases owned with ⟨free, none⟩ | ⟨holder, held, one, others⟩
  · exact .inl ⟨mutex ▸ free, holds ▸ none⟩
  · refine .inr ⟨holder, ?_, holds ▸ one, holds ▸ others⟩
    rw [mutex, held, tids holder]

variable [DecidableEq Ref]

theorem setTask_tids (o : MutexObject Ref) (task : Ref) {content : Task Ref}
    (same : content.tid = (o.tasks task).tid) : SameTids o (o.setTask task content) := by
  intro other
  by_cases equal : other = task
  · simp [MutexObject.setTask, equal, same]
  · simp [MutexObject.setTask, equal]

theorem mutexLockSection_acquired {address : Nat} {task : Ref}
    (result : mutexLockSection address o (some task) = (true, after)) :
    o.mutex.locked = 0 ∧ after.mutex = ⟨1, (o.tasks task).tid, some task⟩ ∧
      SameTids o after := by
  simp only [mutexLockSection] at result
  split at result
  · rename_i free
    cases result
    exact ⟨free, rfl, setTask_tids o task rfl⟩
  · split at result <;> cases result

theorem mutexLockSection_refused {address : Nat} {task : Ref}
    (result : mutexLockSection address o (some task) = (false, after)) :
    o.mutex.locked ≠ 0 ∧ after.mutex = o.mutex ∧ SameTids o after := by
  simp only [mutexLockSection] at result
  split at result
  · cases result
  · rename_i locked
    split at result
    · cases result
      rename_i task owner same _
      split
      · refine ⟨locked, rfl, (setTask_tids o owner ?_).trans (setTask_tids _ _ rfl)⟩
        exact taskBoostPriority_tid _ _
      · exact ⟨locked, rfl, setTask_tids o _ rfl⟩
    · cases result
      exact ⟨locked, rfl, fun _ => rfl⟩

theorem mutexUnlockSection_free (o : MutexObject Ref) :
    (mutexUnlockSection o).mutex = mutexInit := by
  simp only [mutexUnlockSection]
  split <;> rfl

theorem MutexOwned.take (owned : MutexOwned s) {task : Ref} (free : s.object.mutex.locked = 0)
    (mutex : after.mutex = ⟨1, (s.object.tasks task).tid, some task⟩)
    (tids : SameTids s.object after) : MutexOwned (s.take task () after) := by
  rcases owned with ⟨_, none⟩ | ⟨holder, held, _⟩
  · refine .inr ⟨task, ?_, ?_, fun other apart => ?_⟩
    · exact mutex.trans (by rw [← tids task]; rfl)
    · simp [State.take, none]
    · rw [State.take, setHolds_other _ _ apart]
      exact none other
  · rw [held] at free
    cases free

theorem MutexOwned.give (owned : MutexOwned s) {task : Ref} (holds : 0 < s.holds task ())
    (mutex : after.mutex = mutexInit) : MutexOwned (s.give task () after) := by
  rcases owned with ⟨_, none⟩ | ⟨holder, _, one, others⟩
  · rw [none task] at holds
    omega
  · have same : task = holder := by
      by_contra apart
      rw [others task apart] at holds
      omega
    subst same
    refine .inl ⟨by rw [State.give, State.setHolds, mutex]; rfl, fun other => ?_⟩
    by_cases own : other = task
    · subst own
      simp [State.give, one]
    · rw [State.give, setHolds_other _ _ own]
      exact others other own

theorem step_mutexOwned {address : Nat} {event : Event Ref Unit}
    {later : State Ref Unit (MutexObject Ref)} (owned : MutexOwned s)
    (holder : HolderReleases s event) (step : Step (mutexProtocol address) s event later) :
    MutexOwned later := by
  cases step with
  | acquired _ here passed =>
      obtain ⟨free, mutex, tids⟩ := mutexLockSection_acquired passed
      exact (owned.take free mutex tids).frame rfl (fun _ => rfl) rfl
  | refused _ here failed =>
      obtain ⟨_, mutex, tids⟩ := mutexLockSection_refused failed
      exact owned.frame mutex tids rfl
  | tried _ _ outside passed =>
      obtain ⟨free, mutex, tids⟩ := mutexTrylock_acquired passed
      exact owned.take free mutex tids
  | failed _ _ outside failed =>
      obtain ⟨_, same⟩ := mutexTrylock_failed failed
      exact owned.frame (by rw [same]) (fun _ => by rw [same]) rfl
  | released _ _ outside result =>
      cases result
      exact (owned.give holder (mutexUnlockSection_free _)).frame rfl (fun _ => rfl) rfl
  | _ => exact owned.frame rfl (fun _ => rfl) rfl

/-- In every interleaving at most one task holds the mutex, `locked` says whether one does,
and then `owner_task` and `owner` name it. -/
theorem mutex_exclusion (address : Nat)
    (reached : Reachable MutexStart (Restricted HolderReleases (Step (mutexProtocol address))) s) :
    (∀ task other, 0 < s.holds task () → 0 < s.holds other () → task = other) ∧
      (∀ task, s.holds task () ≤ 1) ∧
      (s.object.mutex.locked = 0 ∨ s.object.mutex.locked = 1) ∧
      (s.object.mutex.locked = 1 ↔ ∃ task, 0 < s.holds task ()) ∧
      ∀ task, 0 < s.holds task () →
        s.object.mutex.ownerTask = some task ∧
          s.object.mutex.owner = (s.object.tasks task).tid := by
  have owned : MutexOwned s := reached.invariant MutexOwned
    (fun s start => .inl ⟨congrArg Mutex.locked start.2, fun task => start.1.holds task ()⟩)
    (fun s event after owned step => step_mutexOwned owned step.1 step.2)
  rcases owned with ⟨free, none⟩ | ⟨holder, held, one, others⟩
  · have nobody : ∀ task, ¬ 0 < s.holds task () := fun task => by rw [none task]; omega
    refine ⟨fun task _ holds => absurd holds (nobody task), fun task => by rw [none task]; omega,
      .inl free, ?_, fun task holds => absurd holds (nobody task)⟩
    rw [free]
    exact iff_of_false (by omega) fun ⟨task, holds⟩ => nobody task holds
  · have only : ∀ task, 0 < s.holds task () → task = holder := fun task holds => by
      by_contra apart
      rw [others task apart] at holds
      omega
    refine ⟨fun task other first second => (only task first).trans (only other second).symm,
      fun task => ?_, .inr (congrArg Mutex.locked held), ?_, fun task holds => ?_⟩
    · by_cases same : task = holder
      · rw [same, one]
      · rw [others task same]
        omega
    · rw [held]
      exact iff_of_true rfl ⟨holder, by omega⟩
    · rw [only task holds, held]
      exact ⟨rfl, rfl⟩

def mutexBoot : State (Fin 2) Unit (MutexObject (Fin 2)) where
  object := ⟨mutexInit, fun _ => Task.zero (Fin 2)⟩
  queue _ := []
  blocked _ := false
  place _ := .outside
  holds _ _ := 0

theorem mutexBoot_start : MutexStart mutexBoot :=
  ⟨⟨fun _ => rfl, fun _ => rfl, fun _ => rfl, fun _ _ => rfl⟩, rfl⟩

theorem mutex_exclusion_trylock :
    let s := mutexBoot.take 1 () (mutexTrylock mutexBoot.object (some 1)).2
    s.holds 1 () = 1 ∧ s.object.mutex.ownerTask = some 1 := by
  have reached : Reachable MutexStart (Restricted HolderReleases (Step (mutexProtocol 0x1000)))
      (mutexBoot.take 1 () (mutexTrylock mutexBoot.object (some 1)).2) :=
    (Reachable.start mutexBoot_start).extend (.tried 1 () rfl rfl) trivial
  exact ⟨rfl, ((mutex_exclusion 0x1000 reached).2.2.2.2 1 (by decide)).1⟩

end ZurichOS
