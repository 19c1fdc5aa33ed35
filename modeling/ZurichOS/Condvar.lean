import ZurichOS.Mutex

set_option linter.all false

/-!
`kernel/sync/condvar.c` with the mutex that its waiters unlock and lock again.  Each
locked section, each `task_block` and each `task_unblock` of a task is one step; steps of
different tasks interleave freely.
-/

namespace ZurichOS

open Transitions

variable {Ref : Type}

/-- Where a task is.  `some entry` says that it is inside `condvar_wait`, whose entry in
the queue is `entry`; `none`, that it is in `mutex_lock` or `mutex_unlock` alone. -/
inductive CondvarPlace (Ref : Type) where
  | outside
  | lock
  | lockWait
  | unlock (entry : Option Nat)
  | wakeOne (entry : Option Nat)
  | wake (target : Ref) (entry : Option Nat)
  | block (entry : Option Nat)
  | asleep (entry : Option Nat)
  | signal (target : Ref) (entry : Nat)

/-- The queue of the condition variable holds its entries, numbered as they are allocated,
with their tasks.  `signalled` has the entries that signals have removed. -/
structure CondvarState (Ref : Type) where
  object : MutexObject Ref
  lockWaiters : List Ref
  waiters : List (Nat × Ref)
  entries : Nat
  signalled : List Nat
  blocked : Ref → Bool
  place : Ref → CondvarPlace Ref

/-- Memory for an entry may be missing, and a block returns at once where no other task is
ready. -/
inductive CondvarEvent (Ref : Type) where
  | mutexLock (actor : Ref)
  | lockSection (actor : Ref)
  | waitqueueWait (actor : Ref) (memory : Bool)
  | mutexTrylock (actor : Ref)
  | mutexUnlock (actor : Ref)
  | unlockSection (actor : Ref)
  | waitqueueWakeOne (actor : Ref)
  | taskBlock (actor : Ref) (others : Bool)
  | resume (actor : Ref)
  | taskUnblock (actor : Ref)
  | condvarWait (actor : Ref) (memory : Bool)
  | condvarSignal (actor : Ref)
  | condvarBroadcast (actor : Ref)

section Steps

variable [DecidableEq Ref]

def CondvarState.move (s : CondvarState Ref) (actor : Ref) (place : CondvarPlace Ref) :
    CondvarState Ref :=
  { s with place := Function.update s.place actor place }

def CondvarState.setBlocked (s : CondvarState Ref) (task : Ref) (blocked : Bool) :
    CondvarState Ref :=
  { s with blocked := Function.update s.blocked task blocked }

/-- Where `mutex_unlock` returns to. -/
def afterUnlock : Option Nat → CondvarPlace Ref
  | some entry => .block (some entry)
  | none => .outside

/-- Where `task_block` returns to: the loop of `mutex_lock`, which a waiter of the condition
variable enters here. -/
inductive CondvarStep (address : Nat) :
    CondvarState Ref → CondvarEvent Ref → CondvarState Ref → Prop
  | locking {s} (actor) : s.place actor = .outside →
      CondvarStep address s (.mutexLock actor) (s.move actor .lock)
  | locked {s object} (actor) : s.place actor = .lock →
      mutexLockSection address s.object (some actor) = (true, object) →
      CondvarStep address s (.lockSection actor) ({ s with object }.move actor .outside)
  | refused {s object} (actor) : s.place actor = .lock →
      mutexLockSection address s.object (some actor) = (false, object) →
      CondvarStep address s (.lockSection actor) ({ s with object }.move actor .lockWait)
  | queued {s} (actor) : s.place actor = .lockWait →
      CondvarStep address s (.waitqueueWait actor true)
        ({ s with lockWaiters := s.lockWaiters ++ [actor] }.move actor (.block none))
  | unqueued {s} (actor) : s.place actor = .lockWait →
      CondvarStep address s (.waitqueueWait actor false) (s.move actor .lock)
  | tried {s taken object} (actor) : s.place actor = .outside →
      mutexTrylock s.object (some actor) = (taken, object) →
      CondvarStep address s (.mutexTrylock actor) { s with object }
  | unlocking {s} (actor) : s.place actor = .outside →
      CondvarStep address s (.mutexUnlock actor) (s.move actor (.unlock none))
  | unlocked {s entry} (actor) : s.place actor = .unlock entry →
      CondvarStep address s (.unlockSection actor)
        ({ s with object := mutexUnlockSection s.object }.move actor (.wakeOne entry))
  | wokeFirst {s entry target rest} (actor) : s.place actor = .wakeOne entry →
      s.lockWaiters = target :: rest →
      CondvarStep address s (.waitqueueWakeOne actor)
        ({ s with lockWaiters := rest }.move actor (.wake target entry))
  | wokeNone {s entry} (actor) : s.place actor = .wakeOne entry → s.lockWaiters = [] →
      CondvarStep address s (.waitqueueWakeOne actor) (s.move actor (afterUnlock entry))
  | slept {s entry} (actor) : s.place actor = .block entry →
      CondvarStep address s (.taskBlock actor true)
        ((s.setBlocked actor true).move actor (.asleep entry))
  | returned {s entry} (actor) : s.place actor = .block entry →
      CondvarStep address s (.taskBlock actor false)
        ((s.setBlocked actor true).move actor .lock)
  | resumed {s entry} (actor) : s.place actor = .asleep entry → s.blocked actor = false →
      CondvarStep address s (.resume actor) (s.move actor .lock)
  | woke {s target entry} (actor) : s.place actor = .wake target entry →
      CondvarStep address s (.taskUnblock actor)
        ((s.setBlocked target false).move actor (afterUnlock entry))
  | signalWoke {s target entry} (actor) : s.place actor = .signal target entry →
      CondvarStep address s (.taskUnblock actor)
        ((s.setBlocked target false).move actor .outside)
  | waited {s} (actor) : s.place actor = .outside →
      CondvarStep address s (.condvarWait actor true)
        ({ s with waiters := s.waiters ++ [(s.entries, actor)], entries := s.entries + 1
          }.move actor (.unlock (some s.entries)))
  | gaveUp {s} (actor) : s.place actor = .outside →
      CondvarStep address s (.condvarWait actor false) s
  | signalled {s entry target rest} (actor) : s.place actor = .outside →
      s.waiters = (entry, target) :: rest →
      CondvarStep address s (.condvarSignal actor)
        ({ s with waiters := rest, signalled := entry :: s.signalled
          }.move actor (.signal target entry))
  | signalledNone {s} (actor) : s.place actor = .outside → s.waiters = [] →
      CondvarStep address s (.condvarSignal actor) s
  | broadcast {s} (actor) : s.place actor = .outside →
      CondvarStep address s (.condvarBroadcast actor)
        { s with
          waiters := []
          blocked := fun task => if task ∈ s.waiters.map Prod.snd then false else s.blocked task }

end Steps

structure CondvarStart (s : CondvarState Ref) : Prop where
  mutex : s.object.mutex = mutexInit
  lockWaiters : s.lockWaiters = []
  waiters : s.waiters = []
  entries : s.entries = 0
  signalled : s.signalled = []
  blocked : ∀ task, s.blocked task = false
  place : ∀ task, s.place task = .outside

/-- The entry for which a task sleeps or is about to. -/
def CondvarPlace.awaits (blocked : Bool) : CondvarPlace Ref → Option Nat
  | .unlock entry => entry
  | .wakeOne entry => entry
  | .wake _ entry => entry
  | .block entry => entry
  | .asleep entry => if blocked then entry else none
  | _ => none

def CondvarPlace.wakes (task : Ref) : CondvarPlace Ref → Prop
  | .wake target _ => target = task
  | .signal target _ => target = task
  | _ => False

/-- A task is blocked in `condvar_wait`, a signal has removed its entry, and nobody is about
to unblock it. -/
def SignalLost (s : CondvarState Ref) : Prop :=
  ∃ task entry, s.place task = .asleep (some entry) ∧ s.blocked task = true ∧
    entry ∈ s.signalled ∧ ∀ other, ¬ (s.place other).wakes task

/-- The `task_unblock` of a signal does not come between the moment its task has queued the
removed entry and the task's `task_block`. -/
def SignalCareful (s : CondvarState Ref) : CondvarEvent Ref → Prop
  | .taskUnblock actor => ∀ target entry, s.place actor = .signal target entry →
      (s.place target).awaits false ≠ some entry
  | _ => True

/-- Entries are queued in the order of their numbers, each for the task that waits for it. -/
structure EntriesQueued (s : CondvarState Ref) : Prop where
  sorted : s.waiters.Pairwise fun older newer => older.1 < newer.1
  allocated : ∀ entry ∈ s.waiters, entry.1 < s.entries
  removed : ∀ entry ∈ s.signalled, entry < s.entries
  awaited : ∀ task entry, (s.place task).awaits (s.blocked task) = some entry →
    entry < s.entries ∧ ∀ queued ∈ s.waiters, queued.1 = entry → queued.2 = task

/-- A task that still waits for an entry that a signal has removed is about to be woken. -/
def Delivered (s : CondvarState Ref) : Prop :=
  ∀ task entry, (s.place task).awaits (s.blocked task) = some entry → entry ∈ s.signalled →
    ∃ other, s.place other = .signal task entry

theorem CondvarStart.queued {s : CondvarState Ref} (start : CondvarStart s) :
    EntriesQueued s := by
  refine ⟨?_, ?_, ?_, fun task entry awaits => ?_⟩
  · simp [start.waiters]
  · simp [start.waiters]
  · simp [start.signalled]
  · simp [start.place, CondvarPlace.awaits] at awaits

theorem CondvarStart.delivered {s : CondvarState Ref} (start : CondvarStart s) :
    Delivered s := fun task entry awaits _ => by
  simp [start.place, CondvarPlace.awaits] at awaits

theorem awaits_afterUnlock (blocked : Bool) (entry : Option Nat) :
    (afterUnlock entry : CondvarPlace Ref).awaits blocked = entry := by
  cases entry <;> rfl

theorem awaits_unblock {place : CondvarPlace Ref} {blocked : Bool} {entry : Nat}
    (awaits : place.awaits false = some entry) : place.awaits blocked = some entry := by
  cases place with
  | asleep => cases awaits
  | _ => exact awaits

variable {s after : CondvarState Ref}

theorem Delivered.not_lost (delivered : Delivered s) :
    ¬ SignalLost s := by
  rintro ⟨task, entry, asleep, blocked, removed, none⟩
  have awaits : (s.place task).awaits (s.blocked task) = some entry := by
    rw [asleep, blocked]
    rfl
  obtain ⟨other, wakes⟩ := delivered task entry awaits removed
  have waker := none other
  rw [wakes] at waker
  exact waker rfl

/-- No task waits for an entry that it did not wait for before. -/
def Settles (s after : CondvarState Ref) : Prop :=
  ∀ task entry, (after.place task).awaits (after.blocked task) = some entry →
    (s.place task).awaits (s.blocked task) = some entry

theorem EntriesQueued.settle (queued : EntriesQueued s) (settles : Settles s after)
    (fewer : after.waiters.Sublist s.waiters) (entries : after.entries = s.entries)
    (removed : ∀ entry ∈ after.signalled, entry < s.entries) : EntriesQueued after := by
  refine ⟨queued.sorted.sublist fewer, ?_, ?_, fun task entry awaits => ?_⟩
  · exact fun entry inside => entries ▸ queued.allocated entry (fewer.subset inside)
  · exact fun entry inside => entries ▸ removed entry inside
  · obtain ⟨old, own⟩ := queued.awaited task entry (settles task entry awaits)
    exact ⟨entries ▸ old, fun other inside => own other (fewer.subset inside)⟩

theorem Delivered.settle (delivered : Delivered s) (settles : Settles s after)
    (signalled : after.signalled = s.signalled)
    (signals : ∀ other target entry, s.place other = .signal target entry →
      after.place other = .signal target entry) : Delivered after := by
  intro task entry awaits removed
  obtain ⟨other, wakes⟩ := delivered task entry (settles task entry awaits) (signalled ▸ removed)
  exact ⟨other, signals other task entry wakes⟩

theorem EntriesQueued.object (queued : EntriesQueued s) (object : MutexObject Ref) (lockWaiters : List Ref) :
    EntriesQueued { s with object, lockWaiters } :=
  ⟨queued.sorted, queued.allocated, queued.removed, queued.awaited⟩

theorem Delivered.object (delivered : Delivered s) (object : MutexObject Ref)
    (lockWaiters : List Ref) : Delivered { s with object, lockWaiters } :=
  delivered

variable [DecidableEq Ref]

theorem settles_move {actor : Ref} {place : CondvarPlace Ref}
    (awaits : ∀ entry, place.awaits (s.blocked actor) = some entry →
      (s.place actor).awaits (s.blocked actor) = some entry) : Settles s (s.move actor place) := by
  intro task entry later
  by_cases same : task = actor
  · subst same
    simp only [CondvarState.move, Function.update_self] at later
    exact awaits entry later
  · simpa [CondvarState.move, same] using later

theorem settles_unblock (s : CondvarState Ref) (target : Ref) :
    Settles s (s.setBlocked target false) := by
  intro task entry later
  by_cases same : task = target
  · subst same
    simp only [CondvarState.setBlocked, Function.update_self] at later
    exact awaits_unblock later
  · simpa [CondvarState.setBlocked, same] using later

theorem settles_block {actor : Ref} {entry : Option Nat} (here : s.place actor = .block entry) :
    Settles s (s.setBlocked actor true) := by
  intro task number later
  by_cases same : task = actor
  · subst same
    simpa [here, CondvarState.setBlocked, CondvarPlace.awaits] using later
  · simpa [CondvarState.setBlocked, same] using later

/-- A step of a task that keeps what it waits for, and the queue. -/
theorem EntriesQueued.move (queued : EntriesQueued s) {actor : Ref} {place : CondvarPlace Ref}
    (awaits : ∀ entry, place.awaits (s.blocked actor) = some entry →
      (s.place actor).awaits (s.blocked actor) = some entry) : EntriesQueued (s.move actor place) :=
  queued.settle (settles_move awaits) (List.Sublist.refl _) rfl queued.removed

theorem EntriesQueued.setBlocked (queued : EntriesQueued s) {target : Ref} {blocked : Bool}
    (settles : Settles s (s.setBlocked target blocked)) :
    EntriesQueued (s.setBlocked target blocked) :=
  queued.settle settles (List.Sublist.refl _) rfl queued.removed

theorem EntriesQueued.wait (queued : EntriesQueued s) (actor : Ref) :
    EntriesQueued ({ s with waiters := s.waiters ++ [(s.entries, actor)], entries := s.entries + 1
      }.move actor (.unlock (some s.entries))) := by
  obtain ⟨sorted, allocated, removed, awaited⟩ := queued
  refine ⟨?_, fun entry inside => ?_, fun entry inside => ?_, fun task entry awaits => ?_⟩
  · refine List.pairwise_append.mpr ⟨sorted, List.pairwise_singleton _ _, ?_⟩
    intro older inside newer last
    rw [List.mem_singleton.mp last]
    exact allocated older inside
  · rcases List.mem_append.mp inside with old | new
    · exact Nat.lt_succ_of_lt (allocated entry old)
    · rw [List.mem_singleton.mp new]
      exact Nat.lt_succ_self _
  · exact Nat.lt_succ_of_lt (removed entry inside)
  · by_cases same : task = actor
    · subst same
      obtain rfl : s.entries = entry := by
        simpa [CondvarState.move, CondvarPlace.awaits] using awaits
      refine ⟨Nat.lt_succ_self _, fun other inside own => ?_⟩
      rcases List.mem_append.mp inside with old | new
      · exact absurd own (Nat.ne_of_lt (allocated other old))
      · rw [List.mem_singleton.mp new]
    · simp only [CondvarState.move, Function.update_of_ne same] at awaits
      obtain ⟨old, own⟩ := awaited task entry awaits
      refine ⟨Nat.lt_succ_of_lt old, fun other inside equal => ?_⟩
      rcases List.mem_append.mp inside with before | new
      · exact own other before equal
      · rw [List.mem_singleton.mp new] at equal
        exact absurd equal.symm (Nat.ne_of_lt old)

theorem settles_broadcast (s : CondvarState Ref) :
    Settles s { s with
      waiters := []
      blocked := fun task =>
        if task ∈ s.waiters.map Prod.snd then false else s.blocked task } := by
  intro task entry later
  dsimp only at later
  split at later
  · exact awaits_unblock later
  · exact later

theorem step_entriesQueued {address : Nat} {event : CondvarEvent Ref} (queued : EntriesQueued s)
    (step : CondvarStep address s event after) : EntriesQueued after := by
  cases step with
  | locking actor here => exact queued.move (by simp [CondvarPlace.awaits])
  | locked actor here taken =>
      exact (queued.object _ _).move (by simp [CondvarPlace.awaits])
  | refused actor here failed =>
      exact (queued.object _ _).move (by simp [CondvarPlace.awaits])
  | queued actor here => exact (queued.object _ _).move (by simp [CondvarPlace.awaits])
  | unqueued actor here => exact queued.move (by simp [CondvarPlace.awaits])
  | tried actor here result => exact queued.object _ _
  | unlocking actor here => exact queued.move (by simp [CondvarPlace.awaits])
  | unlocked actor here => exact (queued.object _ _).move (by simp [here, CondvarPlace.awaits])
  | wokeFirst actor here first =>
      exact (queued.object _ _).move (by simp [here, CondvarPlace.awaits])
  | wokeNone actor here empty =>
      refine queued.move fun number later => ?_
      rw [awaits_afterUnlock] at later
      rw [here]
      exact later
  | slept actor here =>
      refine (queued.setBlocked (settles_block here)).move ?_
      simp [here, CondvarState.setBlocked, CondvarPlace.awaits]
  | returned actor here =>
      exact (queued.setBlocked (settles_block here)).move (by simp [CondvarPlace.awaits])
  | resumed actor here awake => exact queued.move (by simp [CondvarPlace.awaits])
  | @woke target entry actor here =>
      refine (queued.setBlocked (settles_unblock s target)).move fun number later => ?_
      rw [awaits_afterUnlock] at later
      rw [show (s.setBlocked target false).place actor = .wake target entry from here]
      exact later
  | signalWoke actor here =>
      exact (queued.setBlocked (settles_unblock s _)).move (by simp [CondvarPlace.awaits])
  | waited actor here => exact queued.wait actor
  | gaveUp actor here => exact queued
  | @signalled entry target rest actor here first =>
      have inside : (entry, target) ∈ s.waiters := first ▸ List.mem_cons_self ..
      refine queued.settle (settles_move ?_) ?_ rfl fun number removed => ?_
      · simp [CondvarPlace.awaits]
      · exact first ▸ List.sublist_cons_self ..
      · rcases List.mem_cons.mp removed with rfl | old
        · exact queued.allocated _ inside
        · exact queued.removed number old
  | signalledNone actor here empty => exact queued
  | broadcast actor here =>
      exact queued.settle (settles_broadcast s) (List.nil_sublist _) rfl queued.removed

/-- A step of a task that does not run the `task_unblock` of a signal. -/
theorem Delivered.move (delivered : Delivered s) {actor : Ref} {place : CondvarPlace Ref}
    (awaits : ∀ entry, place.awaits (s.blocked actor) = some entry →
      (s.place actor).awaits (s.blocked actor) = some entry)
    (signals : ∀ target entry, s.place actor ≠ .signal target entry) :
    Delivered (s.move actor place) := by
  refine delivered.settle (settles_move awaits) rfl fun other target entry wakes => ?_
  have apart : other ≠ actor := fun same => signals target entry (same ▸ wakes)
  exact (Function.update_of_ne apart ..).trans wakes

theorem Delivered.setBlocked (delivered : Delivered s) {target : Ref} {blocked : Bool}
    (settles : Settles s (s.setBlocked target blocked)) :
    Delivered (s.setBlocked target blocked) :=
  delivered.settle settles rfl fun _ _ _ wakes => wakes

theorem Delivered.wait (delivered : Delivered s) (queued : EntriesQueued s) {actor : Ref}
    (here : s.place actor = .outside) :
    Delivered ({ s with waiters := s.waiters ++ [(s.entries, actor)], entries := s.entries + 1
      }.move actor (.unlock (some s.entries))) := by
  intro task entry awaits removed
  by_cases same : task = actor
  · subst same
    obtain rfl : s.entries = entry := by
      simpa [CondvarState.move, CondvarPlace.awaits] using awaits
    exact absurd (queued.removed _ removed) (Nat.lt_irrefl _)
  · simp only [CondvarState.move, Function.update_of_ne same] at awaits
    obtain ⟨other, wakes⟩ := delivered task entry awaits removed
    have apart : other ≠ actor := fun equal => by simp [equal, here] at wakes
    exact ⟨other, (Function.update_of_ne apart ..).trans wakes⟩

theorem Delivered.signal (delivered : Delivered s) (queued : EntriesQueued s) {actor target : Ref}
    {entry : Nat} {rest : List (Nat × Ref)} (here : s.place actor = .outside)
    (first : s.waiters = (entry, target) :: rest) :
    Delivered ({ s with waiters := rest, signalled := entry :: s.signalled
      }.move actor (.signal target entry)) := by
  intro task number awaits removed
  by_cases same : task = actor
  · subst same
    simp [CondvarState.move, CondvarPlace.awaits] at awaits
  · simp only [CondvarState.move, Function.update_of_ne same] at awaits
    rcases List.mem_cons.mp removed with rfl | old
    · have inside : (number, target) ∈ s.waiters := first ▸ List.mem_cons_self ..
      obtain rfl : target = task := (queued.awaited task number awaits).2 _ inside rfl
      exact ⟨actor, Function.update_self ..⟩
    · obtain ⟨other, wakes⟩ := delivered task number awaits old
      have apart : other ≠ actor := fun equal => by simp [equal, here] at wakes
      exact ⟨other, (Function.update_of_ne apart ..).trans wakes⟩

/-- The woken task no longer waits for the removed entry: it was asleep, or had gone on. -/
theorem Delivered.signalWake (delivered : Delivered s) {actor target : Ref} {entry : Nat}
    (here : s.place actor = .signal target entry)
    (careful : (s.place target).awaits false ≠ some entry) :
    Delivered ((s.setBlocked target false).move actor .outside) := by
  intro task number awaits removed
  have before : (s.place task).awaits (s.blocked task) = some number := by
    refine settles_unblock s target task number (settles_move ?_ task number awaits)
    simp [CondvarPlace.awaits]
  obtain ⟨other, wakes⟩ := delivered task number before removed
  have apart : other ≠ actor := by
    rintro rfl
    obtain ⟨rfl, rfl⟩ : target = task ∧ entry = number := by simpa [here] using wakes
    have passed : target ≠ other := by
      rintro rfl
      simp [here, CondvarPlace.awaits] at before
    simp only [CondvarState.move, CondvarState.setBlocked, Function.update_of_ne passed,
      Function.update_self] at awaits
    exact careful awaits
  exact ⟨other, (Function.update_of_ne apart ..).trans wakes⟩

theorem step_delivered {address : Nat} {event : CondvarEvent Ref} (delivered : Delivered s)
    (queued : EntriesQueued s) (careful : SignalCareful s event)
    (step : CondvarStep address s event after) : Delivered after := by
  cases step with
  | locking actor here =>
      exact delivered.move (by simp [CondvarPlace.awaits]) (by simp [here])
  | locked actor here taken =>
      exact (delivered.object _ _).move (by simp [CondvarPlace.awaits]) (by simp [here])
  | refused actor here failed =>
      exact (delivered.object _ _).move (by simp [CondvarPlace.awaits]) (by simp [here])
  | queued actor here =>
      exact (delivered.object _ _).move (by simp [CondvarPlace.awaits]) (by simp [here])
  | unqueued actor here =>
      exact delivered.move (by simp [CondvarPlace.awaits]) (by simp [here])
  | tried actor here result => exact delivered.object _ _
  | unlocking actor here =>
      exact delivered.move (by simp [CondvarPlace.awaits]) (by simp [here])
  | unlocked actor here =>
      exact (delivered.object _ _).move (by simp [here, CondvarPlace.awaits]) (by simp [here])
  | wokeFirst actor here first =>
      exact (delivered.object _ _).move (by simp [here, CondvarPlace.awaits]) (by simp [here])
  | wokeNone actor here empty =>
      refine delivered.move (fun number later => ?_) (by simp [here])
      rw [awaits_afterUnlock] at later
      rw [here]
      exact later
  | slept actor here =>
      refine (delivered.setBlocked (settles_block here)).move ?_ (by simp [here, CondvarState.setBlocked])
      simp [here, CondvarState.setBlocked, CondvarPlace.awaits]
  | returned actor here =>
      exact (delivered.setBlocked (settles_block here)).move (by simp [CondvarPlace.awaits])
        (by simp [here, CondvarState.setBlocked])
  | resumed actor here awake =>
      exact delivered.move (by simp [CondvarPlace.awaits]) (by simp [here])
  | @woke target entry actor here =>
      have same : (s.setBlocked target false).place actor = .wake target entry := here
      refine (delivered.setBlocked (settles_unblock s target)).move (fun number later => ?_)
        (by simp [same])
      rw [awaits_afterUnlock] at later
      rw [same]
      exact later
  | signalWoke actor here => exact delivered.signalWake here (careful _ _ here)
  | waited actor here => exact delivered.wait queued here
  | gaveUp actor here => exact delivered
  | signalled actor here first => exact delivered.signal queued here first
  | signalledNone actor here empty => exact delivered
  | broadcast actor here =>
      exact delivered.settle (settles_broadcast s) rfl fun _ _ _ wakes => wakes

theorem reachable_entriesQueued {address : Nat}
    (reached : Reachable CondvarStart (CondvarStep address) s) : EntriesQueued s :=
  reached.invariant EntriesQueued (fun _ start => start.queued)
    fun _ _ _ queued step => step_entriesQueued queued step

/-- In every run a signal that finds entries removes the oldest of them and no other; and
where no `task_unblock` of a signal comes before the `task_block` of its task, no task is
left blocked whose entry a signal has removed. -/
theorem condvar_signals_delivered (address : Nat) :
    (∀ s : CondvarState Ref, Reachable CondvarStart (CondvarStep address) s →
      ∀ actor after, CondvarStep address s (.condvarSignal actor) after → s.waiters ≠ [] →
        ∃ oldest rest, s.waiters = oldest :: rest ∧ after.waiters = rest ∧
          ∀ entry ∈ rest, oldest.1 < entry.1) ∧
      ∀ s : CondvarState Ref,
        Reachable CondvarStart (Restricted SignalCareful (CondvarStep address)) s →
          ¬ SignalLost s := by
  constructor
  · intro s reached actor after step some
    have sorted := (reachable_entriesQueued reached).sorted
    cases step with
    | @signalled entry target rest actor here first =>
        rw [first] at sorted
        exact ⟨(entry, target), rest, first, rfl, (List.pairwise_cons.mp sorted).1⟩
    | signalledNone actor here empty => exact absurd empty some
  · intro s reached
    have kept : EntriesQueued s ∧ Delivered s := reached.invariant (fun s => EntriesQueued s ∧ Delivered s)
      (fun s start => ⟨start.queued, start.delivered⟩)
      fun s event after kept step => ⟨step_entriesQueued kept.1 step.2,
        step_delivered kept.2 kept.1 step.1 step.2⟩
    exact kept.2.not_lost

def condvarBoot : CondvarState (Fin 2) where
  object := ⟨mutexInit, fun _ => Task.zero (Fin 2)⟩
  lockWaiters := []
  waiters := []
  entries := 0
  signalled := []
  blocked _ := false
  place _ := .outside

theorem condvarBoot_start : CondvarStart condvarBoot :=
  ⟨rfl, rfl, rfl, rfl, rfl, fun _ => rfl, fun _ => rfl⟩

theorem condvar_signals_delivered_sleeper :
    ∃ s : CondvarState (Fin 2), s.place 0 = .asleep (some 0) ∧ 0 ∈ s.signalled ∧
      ¬ SignalLost s := by
  have start : Reachable CondvarStart (Restricted SignalCareful (CondvarStep 0x1000))
      condvarBoot := .start condvarBoot_start
  have s1 := start.extend (.locking 0 rfl) trivial
  have s2 := s1.extend (.locked 0 rfl rfl) trivial
  have s3 := s2.extend (.waited 0 rfl) trivial
  have s4 := s3.extend (.unlocked 0 rfl) trivial
  have s5 := s4.extend (.wokeNone 0 rfl rfl) trivial
  have s6 := s5.extend (.slept 0 rfl) trivial
  have s7 := s6.extend (.signalled 1 rfl rfl) trivial
  exact ⟨_, rfl, List.mem_singleton_self 0, (condvar_signals_delivered 0x1000).2 _ s7⟩

/-- A task signals after the waiter has queued its entry and before the waiter blocks: the
wake-up finds it running, and it blocks with nobody left to wake it. -/
theorem condvar_signal_lost :
    ∃ s : CondvarState (Fin 2),
      Reachable CondvarStart (CondvarStep 0x1000) s ∧ SignalLost s := by
  have start : Reachable CondvarStart (CondvarStep 0x1000) condvarBoot :=
    .start condvarBoot_start
  have s1 := start.next (.locking 0 rfl)
  have s2 := s1.next (.locked 0 rfl rfl)
  have s3 := s2.next (.waited 0 rfl)
  have s4 := s3.next (.signalled 1 rfl rfl)
  have s5 := s4.next (.signalWoke 1 rfl)
  have s6 := s5.next (.unlocked 0 rfl)
  have s7 := s6.next (.wokeNone 0 rfl rfl)
  exact ⟨_, s7.next (.slept 0 rfl), 0, 0, rfl, rfl, List.mem_singleton_self 0,
    Fin.forall_fin_two.mpr ⟨id, id⟩⟩

end ZurichOS
