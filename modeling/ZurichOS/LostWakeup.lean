import ZurichOS.Mutex
import ZurichOS.Wakeups

/-!
Wake-ups of the mutex and the semaphore.  Between the test of the object, the entry into
the queue and the block of a waiting task, an unlock may find the queue empty or the task
not yet blocked; only runs without such a step keep all wake-ups.
-/

namespace ZurichOS

open WaitProtocol Transitions

variable {Ref : Type} [DecidableEq Ref]

def mutexUnits (address : Nat) : Units (mutexProtocol address : Protocol Ref Unit (MutexObject Ref)) where
  free o := if o.mutex.locked = 0 then 1 else 0
  acquired result := by
    obtain ⟨free, mutex, _⟩ := mutexLockSection_acquired result
    simp [free, mutex]
  refused result := by
    obtain ⟨locked, mutex, _⟩ := mutexLockSection_refused result
    simp [locked, mutex]
  tried result := by
    obtain ⟨free, mutex, _⟩ := mutexTrylock_acquired result
    simp [free, mutex]
  failed result := by
    obtain ⟨_, same⟩ := mutexTrylock_failed result
    simp [same]
  released result := by
    cases result
    refine ⟨?_, rfl⟩
    rw [mutexUnlockSection_free]
    simp [mutexInit]

theorem count_sub_one {count : BitVec 32} (positive : 0 < count.toInt) :
    (count - 1).toInt = count.toInt - 1 := by
  have upper := BitVec.toInt_lt (x := count)
  rw [BitVec.toInt_sub, show (1 : BitVec 32).toInt = 1 from rfl]
  exact Int.bmod_eq_of_le (by omega) (by omega)

theorem count_add_one_le (count : BitVec 32) : (count + 1).toInt ≤ max count.toInt 0 + 1 := by
  have upper := BitVec.toInt_lt (x := count)
  have lower := BitVec.le_toInt count
  rw [BitVec.toInt_add, show (1 : BitVec 32).toInt = 1 from rfl, Int.bmod_def]
  omega

def semaphoreUnits : Units (semaphoreProtocol : Protocol Ref Unit Semaphore) where
  free sem := sem.count.toInt.toNat
  acquired result := by
    simp only [semaphoreProtocol, semaphoreWaitSection] at result
    split at result
    · rename_i positive
      cases result
      rw [count_sub_one positive]
      omega
    · cases result
  refused result := by
    simp only [semaphoreProtocol, semaphoreWaitSection] at result
    split at result
    · cases result
    · cases result
      omega
  tried result := by
    simp only [semaphoreProtocol, semaphoreTrywait] at result
    split at result
    · rename_i positive
      cases result
      rw [count_sub_one positive]
      omega
    · cases result
  failed result := by
    simp only [semaphoreProtocol, semaphoreTrywait] at result
    split at result
    · cases result
    · cases result
      exact Nat.le_refl _
  released result := by
    rename_i object _ _ _ _
    cases result
    have next := count_add_one_le object.count
    refine ⟨?_, rfl⟩
    simp only [semaphoreSignalSection]
    omega

def SemaphoreStart (count : BitVec 32) (s : State Ref Unit Semaphore) : Prop :=
  Fresh s ∧ s.object = semaphoreInit count

/-- No wake-up of a mutex or a semaphore is lost in a run whose steps are careful. -/
theorem wakeups_kept [Fintype Ref] (address : Nat) (count : BitVec 32) :
    (∀ s : State Ref Unit (MutexObject Ref),
      Reachable MutexStart (Restricted (Careful (mutexUnits address))
        (Step (mutexProtocol address))) s → ¬ Lost (mutexUnits address) s) ∧
      ∀ s : State Ref Unit Semaphore,
        Reachable (SemaphoreStart count) (Restricted (Careful semaphoreUnits)
          (Step semaphoreProtocol)) s → ¬ Lost semaphoreUnits s :=
  ⟨fun _ reached => reachable_not_lost (fun _ start => start.1) reached,
    fun _ reached => reachable_not_lost (fun _ start => start.1) reached⟩

theorem wakeups_kept_unlock :
    ∃ s : State (Fin 2) Unit (MutexObject (Fin 2)),
      s.object.mutex.locked = 0 ∧ s.blocked 1 = true ∧ ¬ Lost (mutexUnits 0x1000) s := by
  have start : Reachable MutexStart (Restricted (Careful (mutexUnits 0x1000))
      (Step (mutexProtocol 0x1000))) mutexBoot := .start mutexBoot_start
  have s1 := start.extend (.call 0 () rfl) trivial
  have s2 := s1.extend (.acquired 0 rfl rfl) trivial
  have s3 := s2.extend (.call 1 () rfl) trivial
  have s4 := s3.extend (.refused 1 rfl rfl) trivial
  have s5 := s4.extend (.queued 1 rfl) fun _ => .inr (Nat.zero_le _)
  have s6 := s5.extend (.slept 1 rfl) rfl
  have s7 := s6.extend (.released 0 () rfl rfl) trivial
  exact ⟨_, rfl, rfl, (wakeups_kept 0x1000 0).1 _ s7⟩

/-- With one task about to block, the holder unlocks: the wake-up is spent on a task that is
not blocked yet, and the task blocks on a free mutex. -/
theorem mutex_wakeup_lost :
    ∃ s : State (Fin 2) Unit (MutexObject (Fin 2)),
      Reachable MutexStart (Restricted HolderReleases (Step (mutexProtocol 0x1000))) s ∧
        Lost (mutexUnits 0x1000) s := by
  have start : Reachable MutexStart (Restricted HolderReleases (Step (mutexProtocol 0x1000)))
      mutexBoot := .start mutexBoot_start
  have s1 := start.extend (.call 0 () rfl) trivial
  have s2 := s1.extend (.acquired 0 rfl rfl) trivial
  have s3 := s2.extend (.call 1 () rfl) trivial
  have s4 := s3.extend (.refused 1 rfl rfl) trivial
  have s5 := s4.extend (.queued 1 rfl) trivial
  have s6 := s5.extend (.released 0 () rfl rfl) Nat.zero_lt_one
  have s7 := s6.extend (.wokeFirst 0 rfl rfl) trivial
  have s8 := s7.extend (.unblocked 0 rfl) trivial
  have s9 := s8.extend (.left 0 rfl) trivial
  exact ⟨_, s9.extend (.slept 1 rfl) trivial, by decide, by decide, 1, rfl, rfl⟩

end ZurichOS
