import ZurichOS.SyncCore

/-!
Exclusion of the reader-writer lock: its counters are the read and the write locks held,
and never both.
-/

namespace ZurichOS

open WaitProtocol Transitions

variable {Ref : Type} {rw after : Rwlock}

def RwlockTaken (rw after : Rwlock) : RwMode → Prop
  | .read => rw.writer = 0 ∧ after.writer = 0 ∧ after.readers = rw.readers + 1
  | .write => rw.writer = 0 ∧ rw.readers = 0 ∧ after.writer = 1 ∧ after.readers = 0

def RwlockGiven (rw after : Rwlock) : RwMode → Prop
  | .read => after.writer = rw.writer ∧ after.readers = rw.readers - 1
  | .write => after.writer = 0 ∧ after.readers = rw.readers

theorem rwlock_attempt_taken {mode : RwMode} {task : Ref}
    (result : rwlockProtocol.attempt rw mode task = (true, after)) : RwlockTaken rw after mode := by
  cases mode with
  | read =>
      simp only [rwlockProtocol, rwlockReadLockSection] at result
      split at result
      · rename_i free
        cases result
        exact ⟨free.1, free.1, rfl⟩
      · cases result
  | write =>
      simp only [rwlockProtocol, rwlockWriteLockSection] at result
      split at result
      · rename_i free
        cases result
        exact ⟨free.1, free.2, rfl, free.2⟩
      · cases result

theorem rwlock_attempt_refused {mode : RwMode} {task : Ref}
    (result : rwlockProtocol.attempt rw mode task = (false, after)) :
    after.writer = rw.writer ∧ after.readers = rw.readers := by
  cases mode with
  | read =>
      simp only [rwlockProtocol, rwlockReadLockSection] at result
      split at result <;> cases result
      exact ⟨rfl, rfl⟩
  | write =>
      simp only [rwlockProtocol, rwlockWriteLockSection] at result
      split at result <;> cases result
      exact ⟨rfl, rfl⟩

theorem rwlock_try_taken {mode : RwMode} {task : Ref}
    (result : rwlockProtocol.tryOnce rw mode task = (true, after)) : RwlockTaken rw after mode := by
  cases mode with
  | read =>
      simp only [rwlockProtocol, rwlockTryReadLock] at result
      split at result
      · rename_i free
        cases result
        exact ⟨free.1, free.1, rfl⟩
      · cases result
  | write =>
      simp only [rwlockProtocol, rwlockTryWriteLock] at result
      split at result
      · rename_i free
        cases result
        exact ⟨free.1, free.2, rfl, free.2⟩
      · cases result

theorem rwlock_try_failed {mode : RwMode} {task : Ref}
    (result : rwlockProtocol.tryOnce rw mode task = (false, after)) : after = rw := by
  cases mode with
  | read =>
      simp only [rwlockProtocol, rwlockTryReadLock] at result
      split at result <;> cases result
      rfl
  | write =>
      simp only [rwlockProtocol, rwlockTryWriteLock] at result
      split at result <;> cases result
      rfl

theorem rwlock_release_given {mode : RwMode} {task : Ref} {waiting : RwMode → Bool}
    {wakes : List (Wake RwMode)}
    (result : rwlockProtocol.release rw mode task waiting = (after, wakes)) :
    RwlockGiven rw after mode := by
  cases mode with
  | read =>
      simp only [rwlockProtocol, rwlockReadUnlockSection] at result
      split at result <;> cases result <;> exact ⟨rfl, rfl⟩
  | write =>
      cases result
      exact ⟨rfl, rfl⟩

variable [Fintype Ref] {s : State Ref RwMode Rwlock}

/-- The counters are the locks held; a write lock is held alone. -/
structure RwlockOwned (s : State Ref RwMode Rwlock) : Prop where
  readers : s.object.readers = BitVec.ofNat 32 (s.held .read)
  writer : s.object.writer = 0 ∧ s.held .write = 0 ∨
    s.object.writer = 1 ∧ s.held .write = 1 ∧ s.held .read = 0

def RwlockStart (s : State Ref RwMode Rwlock) : Prop := Fresh s ∧ s.object = rwlockInit

def RwlockUse (s : State Ref RwMode Rwlock) (event : Event Ref RwMode) : Prop :=
  HolderReleases s event ∧ s.held .read < 2147483648

theorem RwlockOwned.frame (owned : RwlockOwned s) {later : State Ref RwMode Rwlock}
    (counts : later.object.writer = s.object.writer ∧ later.object.readers = s.object.readers)
    (holds : later.holds = s.holds) : RwlockOwned later := by
  have same : ∀ mode, later.held mode = s.held mode := fun mode => by
    rw [State.held, State.held, holds]
  refine ⟨?_, ?_⟩
  · rw [counts.2, same, owned.readers]
  · rw [counts.1, same, same]
    exact owned.writer

theorem RwlockStart.owned (start : RwlockStart s) : RwlockOwned s := by
  have none : ∀ mode, s.held mode = 0 := fun mode =>
    Finset.sum_eq_zero fun task _ => start.1.holds task mode
  refine ⟨?_, .inl ⟨?_, none .write⟩⟩
  · rw [none, start.2]
    rfl
  · rw [start.2]
    rfl

theorem RwlockOwned.no_readers (owned : RwlockOwned s) (few : s.held .read < 2147483648)
    (zero : s.object.readers = 0) : s.held .read = 0 := by
  have counted := congrArg BitVec.toNat (owned.readers.symm.trans zero)
  rw [BitVec.toNat_ofNat] at counted
  have none : s.held .read % 2 ^ 32 = 0 := counted
  omega

variable [DecidableEq Ref]

theorem RwlockOwned.take (owned : RwlockOwned s) {mode : RwMode} (task : Ref)
    (few : s.held .read < 2147483648) (taken : RwlockTaken s.object after mode) :
    RwlockOwned (s.take task mode after) := by
  have more := take_held s task mode after
  have others : ∀ own, own ≠ mode → (s.take task mode after).held own = s.held own :=
    fun own apart => setHolds_held_mode { s with object := after } task _ apart
  cases mode with
  | read =>
      obtain ⟨free, still, count⟩ := taken
      have noWriter : s.held .write = 0 := by
        rcases owned.writer with ⟨_, none⟩ | ⟨one, _⟩
        · exact none
        · rw [free] at one
          cases one
      refine ⟨?_, .inl ⟨still, (others .write (by simp)).trans noWriter⟩⟩
      rw [more]
      rw [BitVec.ofNat_add, ← owned.readers]
      exact count
  | write =>
      obtain ⟨free, noReaders, one, zero⟩ := taken
      have readers := owned.no_readers few noReaders
      have sameReaders := others .read (by simp)
      rw [readers] at sameReaders
      refine ⟨by rw [sameReaders]; exact zero, .inr ⟨one, ?_, sameReaders⟩⟩
      rcases owned.writer with ⟨_, none⟩ | ⟨held, _⟩
      · omega
      · rw [free] at held
        cases held

theorem RwlockOwned.give (owned : RwlockOwned s) {mode : RwMode} {task : Ref}
    (holds : 0 < s.holds task mode) (given : RwlockGiven s.object after mode) :
    RwlockOwned (s.give task mode after) := by
  have fewer := give_held s holds after
  have others : ∀ own, own ≠ mode → (s.give task mode after).held own = s.held own :=
    fun own apart => setHolds_held_mode { s with object := after } task _ apart
  cases mode with
  | read =>
      obtain ⟨writer, count⟩ := given
      refine ⟨?_, ?_⟩
      · refine count.trans ?_
        rw [owned.readers, ← fewer, BitVec.ofNat_add]
        exact BitVec.add_sub_cancel ..
      · rw [others .write (by simp)]
        rcases owned.writer with ⟨free, none⟩ | ⟨_, _, zero⟩
        · exact .inl ⟨writer.trans free, none⟩
        · omega
  | write =>
      obtain ⟨free, count⟩ := given
      have sameReaders := others .read (by simp)
      refine ⟨?_, .inl ⟨free, ?_⟩⟩
      · rw [sameReaders]
        exact count.trans owned.readers
      · rcases owned.writer with ⟨_, none⟩ | ⟨_, one, _⟩ <;> omega

theorem step_rwlockOwned {event : Event Ref RwMode} {later : State Ref RwMode Rwlock}
    (owned : RwlockOwned s) (use : RwlockUse s event)
    (step : Step rwlockProtocol s event later) : RwlockOwned later := by
  cases step with
  | acquired actor here passed =>
      exact (owned.take actor use.2 (rwlock_attempt_taken passed)).frame ⟨rfl, rfl⟩ rfl
  | refused actor here failed => exact owned.frame (rwlock_attempt_refused failed) rfl
  | tried actor mode outside passed => exact owned.take actor use.2 (rwlock_try_taken passed)
  | failed actor mode outside failed =>
      have same := rwlock_try_failed failed
      exact owned.frame ⟨congrArg Rwlock.writer same, congrArg Rwlock.readers same⟩ rfl
  | released actor mode outside result =>
      exact (owned.give use.1 (rwlock_release_given result)).frame ⟨rfl, rfl⟩ rfl
  | _ => exact owned.frame ⟨rfl, rfl⟩ rfl

/-- In every interleaving with fewer than 2^31 read locks, `readers` is their number, `writer`
says whether a task holds the write lock, and that task holds the lock alone. -/
theorem rwlock_exclusion
    (reached : Reachable RwlockStart (Restricted RwlockUse (Step rwlockProtocol)) s)
    (few : s.held .read < 2147483648) :
    s.object.readers.toInt = ((∑ task, s.holds task .read : Nat) : Int) ∧
      (s.object.writer = 0 ∨ s.object.writer = 1) ∧
      (s.object.writer = 1 ↔ ∃ task, 0 < s.holds task .write) ∧
      (∀ task other, 0 < s.holds task .write → 0 < s.holds other .write → task = other) ∧
      (∀ task, s.holds task .write ≤ 1) ∧
      ∀ task other, 0 < s.holds task .write → s.holds other .read = 0 := by
  have owned : RwlockOwned s := reached.invariant RwlockOwned
    (fun s start => start.owned)
    (fun s event later owned step => step_rwlockOwned owned step.1 step.2)
  have counted : s.object.readers.toInt = (s.held .read : Int) := by
    have exact : s.object.readers.toNat = s.held .read := by
      rw [owned.readers, BitVec.toNat_ofNat]
      exact Nat.mod_eq_of_lt (by omega)
    rw [BitVec.toInt_eq_toNat_of_lt (by omega), exact]
  have own : ∀ mode task, s.holds task mode ≤ s.held mode := fun mode task =>
    le_total (fun other => s.holds other mode) task
  rcases owned.writer with ⟨free, none⟩ | ⟨one, single, readers⟩
  · have nobody : ∀ task, ¬ 0 < s.holds task .write := fun task => by
      have bound := own .write task
      omega
    refine ⟨counted, .inl free, ?_, fun task _ holds => absurd holds (nobody task),
      fun task => by have bound := own .write task; omega,
      fun task _ holds => absurd holds (nobody task)⟩
    rw [free]
    exact iff_of_false (by decide) fun ⟨task, holds⟩ => nobody task holds
  · refine ⟨counted, .inr one, ?_, fun task other first second => ?_,
      fun task => single ▸ own .write task, fun task other _ => ?_⟩
    · have positive : 0 < s.held .write := by omega
      exact iff_of_true one (exists_of_total_pos positive)
    · by_contra apart
      have pair := pair_le_total (fun task => s.holds task .write) (Ne.symm apart)
      have total : s.held .write = total fun task => s.holds task .write := rfl
      omega
    · have bound := own .read other
      omega

def rwlockBoot : State (Fin 2) RwMode Rwlock where
  object := rwlockInit
  queue _ := []
  blocked _ := false
  place _ := .outside
  holds _ _ := 0

theorem rwlockBoot_start : RwlockStart rwlockBoot :=
  ⟨⟨fun _ => rfl, fun _ => rfl, fun _ => rfl, fun _ _ => rfl⟩, rfl⟩

theorem rwlock_exclusion_writer :
    ∃ s : State (Fin 2) RwMode Rwlock,
      s.object.writer = 1 ∧ 0 < s.holds 0 .write ∧ s.holds 1 .read = 0 := by
  have start : Reachable RwlockStart (Restricted RwlockUse (Step rwlockProtocol)) rwlockBoot :=
    .start rwlockBoot_start
  have s1 := start.extend (.call 0 .write rfl) ⟨trivial, by decide⟩
  have s2 := s1.extend (.acquired 0 rfl rfl) ⟨trivial, by decide⟩
  exact ⟨_, rfl, Nat.zero_lt_one, (rwlock_exclusion s2 (by decide)).2.2.2.2.2 0 1 Nat.zero_lt_one⟩

/-- One task takes the read lock twice and is counted twice. -/
theorem rwlock_recursive_reader :
    ∃ s : State (Fin 2) RwMode Rwlock,
      Reachable RwlockStart (Restricted HolderReleases (Step rwlockProtocol)) s ∧
        s.object.readers = 2 ∧ (Finset.univ.filter fun task => 0 < s.holds task .read) = {0} := by
  have start : Reachable RwlockStart (Restricted HolderReleases (Step rwlockProtocol))
      rwlockBoot := .start rwlockBoot_start
  have s1 := start.extend (.call 0 .read rfl) trivial
  have s2 := s1.extend (.acquired 0 rfl rfl) trivial
  have s3 := s2.extend (.call 0 .read rfl) trivial
  have s4 := s3.extend (.acquired 0 rfl rfl) trivial
  exact ⟨_, s4, rfl, by decide⟩

end ZurichOS
