import ZurichOS.PromptWait
import ZurichOS.Rwlock

/-!
Progress of the reader-writer lock where a task enters a queue and blocks in one step.  A
release of the lock leaves its waiting tasks a wake-up only if it wakes a writer, or
readers that `writer_waiting` does not send back to sleep.
-/

namespace ZurichOS

open WaitProtocol Transitions

variable {Ref : Type} {s : State Ref RwMode Rwlock}

def RwlockFree (rw : Rwlock) : Prop := rw.writer = 0 ∧ rw.readers = 0

instance (rw : Rwlock) : Decidable (RwlockFree rw) := inferInstanceAs (Decidable (_ ∧ _))

/-- The lock is free, no wake-up or retry is pending, and a task is blocked on the lock. -/
def RwlockWedged (s : State Ref RwMode Rwlock) : Prop :=
  RwlockFree s.object ∧ (∀ task, (s.place task).stirs (s.blocked task) = false) ∧
    ∃ task mode, s.place task = .asleep mode ∧ s.blocked task = true

/-- A wake-up is on its way to a task that will have the lock if it is free. -/
def RwlockComing (s : State Ref RwMode Rwlock) : Prop :=
  Coming s .write ∨ s.object.writerWaiting = 0 ∧ Coming s .read

/-- The releases of a free lock and the entries into its queues leave a wake-up on its way,
and the number of readers does not wrap. -/
def RwlockCareful (s : State Ref RwMode Rwlock) : Event Ref RwMode → Prop
  | .test actor => ∀ woken, s.place actor = .test .read woken → s.object.readers + 1 ≠ 0
  | .tryOnce _ .read => s.object.readers + 1 ≠ 0
  | .enqueue _ memory => memory = true → RwlockFree s.object → RwlockComing s
  | .release _ .read => s.object.readers = 1 → (∀ mode, s.queue mode = []) ∨
      s.object.writerWaiting ≠ 0 ∧ s.queue .write ≠ [] ∨ RwlockComing s
  | .release _ .write => s.queue .read = [] ∨ s.object.writerWaiting = 0 ∨ RwlockComing s
  | _ => True

theorem RwlockCareful.noReaders {actor : Ref} (none : s.queue .read = []) :
    RwlockCareful s (.release actor .write) := Or.inl none

structure RwlockKept (s : State Ref RwMode Rwlock) : Prop extends Parked s where
  covered : RwlockFree s.object → (∃ mode, s.queue mode ≠ []) → RwlockComing s

theorem RwlockKept.not_wedged (kept : RwlockKept s) : ¬ RwlockWedged s := by
  rintro ⟨free, quiet, sleeper, _, asleep, blocked⟩
  obtain ⟨mode, _, inside | ⟨waker, wakes, unblocks⟩⟩ := kept.waits sleeper blocked
  · have coming : ∃ mode, Coming s mode :=
      (kept.covered free ⟨mode, List.ne_nil_of_mem inside⟩).elim (fun write => ⟨_, write⟩)
        fun read => ⟨_, read.2⟩
    obtain ⟨mode, coming⟩ := coming
    obtain ⟨task, stirs⟩ := coming.stirs
    exact Bool.false_ne_true ((quiet task).symm.trans stirs)
  · have silent := quiet waker
    rw [unblocks] at silent
    cases silent

theorem RwlockStart.kept (start : RwlockStart s) : RwlockKept s := by
  refine ⟨start.1.parked, ?_⟩
  rintro _ ⟨mode, some⟩
  exact absurd (start.1.queue mode) some

theorem RwlockTaken.not_free {rw after : Rwlock} {mode : RwMode} (taken : RwlockTaken rw after mode)
    (few : mode = .read → rw.readers + 1 ≠ 0) : ¬ RwlockFree after := by
  rintro ⟨writer, readers⟩
  cases mode with
  | read => exact few rfl (taken.2.2.symm.trans readers)
  | write =>
      have one := taken.2.2.1
      rw [writer] at one
      cases one

/-- A refusal of a free lock is one of a reader that a waiting writer holds off. -/
theorem rwlock_refused_free {rw after : Rwlock} {mode : RwMode} {task : Ref}
    (result : rwlockProtocol.attempt rw mode task = (false, after)) (free : RwlockFree after) :
    mode = .read ∧ after = rw ∧ rw.writerWaiting ≠ 0 := by
  cases mode with
  | read =>
      simp only [rwlockProtocol, rwlockReadLockSection] at result
      split at result
      · cases result
      · rename_i refused
        cases result
        exact ⟨rfl, rfl, fun clear => refused ⟨free.1, clear⟩⟩
  | write =>
      simp only [rwlockProtocol, rwlockWriteLockSection] at result
      split at result
      · cases result
      · rename_i refused
        cases result
        exact absurd free refused

variable [DecidableEq Ref]

theorem RwlockKept.carry (kept : RwlockKept s) {event : Event Ref RwMode}
    {after : State Ref RwMode Rwlock} (prompt : Prompt s event)
    (step : Step rwlockProtocol s event after) (object : after.object = s.object)
    (fewer : ∀ mode, s.queue mode = [] → after.queue mode = [])
    (passes : ∀ actor mode, event = .test actor → s.place actor = .test mode true → mode = .read ∧
      s.object.writerWaiting ≠ 0) : RwlockKept after := by
  refine ⟨step_parked kept.toParked prompt step, fun free => ?_⟩
  rintro ⟨mode, some⟩
  rw [object] at free
  refine (kept.covered free ⟨mode, fun none => some (fewer mode none)⟩).imp
    (fun write => write.step kept.toParked prompt step fun actor isTest here => ?_)
    (fun ⟨clear, read⟩ => ⟨object ▸ clear,
      read.step kept.toParked prompt step fun actor isTest here => ?_⟩)
  · cases (passes actor .write isTest here).1
  · exact (passes actor .read isTest here).2 clear

theorem RwlockKept.held (kept : RwlockKept s) {event : Event Ref RwMode}
    {after : State Ref RwMode Rwlock} (prompt : Prompt s event)
    (step : Step rwlockProtocol s event after) (held : ¬ RwlockFree after.object) :
    RwlockKept after :=
  ⟨step_parked kept.toParked prompt step, fun free => absurd free held⟩

theorem RwlockKept.enqueue (kept : RwlockKept s) {actor : Ref} {after : State Ref RwMode Rwlock}
    (prompt : Prompt s (.enqueue actor true)) (step : Step rwlockProtocol s (.enqueue actor true) after)
    (object : after.object = s.object) (careful : RwlockFree s.object → RwlockComing s) :
    RwlockKept after := by
  refine ⟨step_parked kept.toParked prompt step, fun free _ => ?_⟩
  rw [object] at free
  exact (careful free).imp (fun write => write.step kept.toParked prompt step (by simp))
    fun ⟨clear, read⟩ => ⟨object ▸ clear, read.step kept.toParked prompt step (by simp)⟩

theorem RwlockComing.release {actor : Ref} {mode : RwMode} {after : State Ref RwMode Rwlock}
    (coming : RwlockComing s) (parked : Parked s) (prompt : Prompt s (.release actor mode))
    (step : Step rwlockProtocol s (.release actor mode) after)
    (waiting : after.object.writerWaiting = s.object.writerWaiting) : RwlockComing after :=
  coming.imp (fun write => write.step parked prompt step (by simp))
    fun ⟨clear, read⟩ => ⟨waiting.trans clear, read.step parked prompt step (by simp)⟩

theorem RwlockKept.release (kept : RwlockKept s) {actor : Ref} {mode : RwMode} {object : Rwlock}
    {wakes : List (Wake RwMode)} (outside : s.place actor = .outside)
    (prompt : Prompt s (.release actor mode)) (careful : RwlockCareful s (.release actor mode))
    (result : rwlockProtocol.release s.object mode actor s.waiting = (object, wakes)) :
    RwlockKept ((s.give actor mode object).move actor (.waking wakes)) := by
  have step := Step.released actor mode outside result
  refine ⟨step_parked kept.toParked prompt step, ?_⟩
  rintro ⟨writer, readers⟩ ⟨queue, some⟩
  have here : ∀ wake, wakes = [wake] → s.queue wake.mode ≠ [] →
      Coming ((s.give actor mode object).move actor (.waking wakes)) wake.mode :=
    fun wake only waits => .inr (.inr ⟨waits, actor, wake, [],
      (Function.update_self ..).trans (only ▸ rfl), rfl⟩)
  change object.writer = 0 at writer
  change object.readers = 0 at readers
  change s.queue queue ≠ [] at some
  cases mode with
  | read =>
      simp only [rwlockProtocol, rwlockReadUnlockSection] at result
      have last : s.object.readers = 1 := by
        have left : s.object.readers - 1 = 0 := by split at result <;> cases result <;> exact readers
        bv_omega
      have same : object.writerWaiting = s.object.writerWaiting := by
        split at result <;> cases result <;> rfl
      rcases careful last with none | ⟨waiting, writers⟩ | coming
      · exact absurd (none queue) some
      · rw [if_pos ⟨by rw [last]; rfl, waiting⟩] at result
        cases result
        exact .inl (here (.one .write) rfl writers)
      · exact coming.release kept.toParked prompt step same
  | write =>
      simp only [rwlockProtocol, rwlockWriteUnlockSection, Prod.mk.injEq] at result
      obtain ⟨rfl, rfl⟩ := result
      by_cases noReaders : s.queue .read = []
      · have writers : s.queue .write ≠ [] := by
          cases queue with
          | read => exact absurd noReaders some
          | write => exact some
        refine .inl (here (.one .write) ?_ writers)
        simp [State.waiting, noReaders, writers]
      · rcases careful with none | clear | coming
        · exact absurd none noReaders
        · refine .inr ⟨clear, here (.all .read) ?_ noReaders⟩
          simp [State.waiting, noReaders]
        · exact coming.release kept.toParked prompt step rfl

theorem step_rwlockKept {event : Event Ref RwMode} {after : State Ref RwMode Rwlock}
    (kept : RwlockKept s) (prompt : Prompt s event) (careful : RwlockCareful s event)
    (step : Step rwlockProtocol s event after) : RwlockKept after := by
  have stepped := step
  cases step with
  | acquired actor here passed =>
      refine kept.held prompt stepped ((rwlock_attempt_taken passed).not_free fun isRead => ?_)
      exact careful _ (isRead ▸ here)
  | @refused mode woken object actor here failed =>
      by_cases free : RwlockFree object
      · obtain ⟨rfl, same, waiting⟩ := rwlock_refused_free failed free
        refine kept.carry prompt stepped same (fun _ none => none) fun other mode isTest place => ?_
        cases isTest
        obtain ⟨rfl, _⟩ : RwMode.read = mode ∧ woken = true := by simpa [here] using place
        exact ⟨rfl, waiting⟩
      · exact kept.held prompt stepped free
  | queued actor here => exact kept.enqueue prompt stepped rfl (careful rfl)
  | tried actor mode outside passed =>
      refine kept.held prompt stepped ((rwlock_try_taken passed).not_free fun isRead => ?_)
      subst isRead
      exact careful
  | failed actor mode outside failed =>
      exact kept.carry prompt stepped (rwlock_try_failed failed) (fun _ none => none) (by simp)
  | released actor mode outside result => exact kept.release outside prompt careful result
  | @wokeFirst mode wakes target rest actor here first =>
      refine kept.carry prompt stepped rfl (fun other none => ?_) (by simp)
      have apart : other ≠ mode := fun same => by simp [same, first] at none
      exact (Function.update_of_ne apart ..).trans none
  | @wokeAll mode wakes actor here =>
      refine kept.carry prompt stepped rfl (fun other none => ?_) (by simp)
      by_cases same : other = mode
      · exact same ▸ Function.update_self ..
      · exact (Function.update_of_ne same ..).trans none
  | _ => exact kept.carry prompt stepped rfl (fun _ none => none) (by simp)

/-- In a run whose steps are careful no task stays blocked on a free lock. -/
theorem rwlock_not_wedged
    (reached : Reachable RwlockStart (Restricted (fun s event => Prompt s event ∧
      RwlockCareful s event) (Step rwlockProtocol)) s) : ¬ RwlockWedged s := by
  refine RwlockKept.not_wedged (reached.invariant RwlockKept (fun s start => start.kept) ?_)
  exact fun s event after kept step => step_rwlockKept kept step.1.1 step.1.2 step.2

def rwlockBootThree : State (Fin 3) RwMode Rwlock where
  object := rwlockInit
  queue _ := []
  blocked _ := false
  place _ := .outside
  holds _ _ := 0

theorem rwlockBootThree_start : RwlockStart rwlockBootThree :=
  ⟨⟨fun _ => rfl, fun _ => rfl, fun _ => rfl, fun _ _ => rfl⟩, rfl⟩

theorem rwlock_not_wedged_writer :
    ∃ s : State (Fin 3) RwMode Rwlock, RwlockFree s.object ∧ s.place 1 = .asleep .write ∧
      s.blocked 1 = true ∧ ¬ RwlockWedged s := by
  have start : Reachable RwlockStart (Restricted (fun s event => Prompt s event ∧
      RwlockCareful s event) (Step rwlockProtocol)) rwlockBootThree := .start rwlockBootThree_start
  have s1 := start.extend (.call 0 .write rfl) ⟨.still (by decide), trivial⟩
  have s2 := s1.extend (.acquired 0 rfl rfl) ⟨.still (by decide), fun _ _ => by decide⟩
  have s3 := s2.extend (.call 1 .write rfl) ⟨.still (by decide), trivial⟩
  have s4 := s3.extend (.refused 1 rfl rfl) ⟨.still (by decide), fun _ _ => by decide⟩
  have s5 := s4.extend (.queued 1 rfl) ⟨.still (by decide), fun _ free => absurd free (by decide)⟩
  have s6 := s5.extend (.slept 1 rfl) ⟨.block (by decide), trivial⟩
  have s7 := s6.extend (.released 0 .write rfl rfl) ⟨.still (by decide), .noReaders rfl⟩
  exact ⟨_, by decide, rfl, rfl, rwlock_not_wedged s7⟩

/-- The unlock of a writer wakes a reader, which `writer_waiting` sends back to sleep, and
leaves the waiting writer asleep. -/
theorem rwlock_wedged :
    ∃ s : State (Fin 3) RwMode Rwlock,
      Reachable RwlockStart (Restricted (fun s event => Prompt s event ∧ HolderReleases s event)
        (Step rwlockProtocol)) s ∧ RwlockWedged s ∧
        s.place 0 = .outside ∧ s.place 1 = .asleep .write ∧ s.place 2 = .asleep .read := by
  have start : Reachable RwlockStart (Restricted (fun s event => Prompt s event ∧
      HolderReleases s event) (Step rwlockProtocol)) rwlockBootThree :=
    .start rwlockBootThree_start
  have s1 := start.extend (.call 0 .write rfl) ⟨.still (by decide), trivial⟩
  have s2 := s1.extend (.acquired 0 rfl rfl) ⟨.still (by decide), trivial⟩
  have s3 := s2.extend (.call 1 .write rfl) ⟨.still (by decide), trivial⟩
  have s4 := s3.extend (.refused 1 rfl rfl) ⟨.still (by decide), trivial⟩
  have s5 := s4.extend (.queued 1 rfl) ⟨.still (by decide), trivial⟩
  have s6 := s5.extend (.slept 1 rfl) ⟨.block (by decide), trivial⟩
  have s7 := s6.extend (.call 2 .read rfl) ⟨.still (by decide), trivial⟩
  have s8 := s7.extend (.refused 2 rfl rfl) ⟨.still (by decide), trivial⟩
  have s9 := s8.extend (.queued 2 rfl) ⟨.still (by decide), trivial⟩
  have s10 := s9.extend (.slept 2 rfl) ⟨.block (by decide), trivial⟩
  have s11 := s10.extend (.released 0 .write rfl rfl) ⟨.still (by decide), by exact Nat.zero_lt_one⟩
  have s12 := s11.extend (.wokeAll 0 rfl) ⟨.still (by decide), trivial⟩
  have s13 := s12.extend (.left 0 rfl) ⟨.still (by decide), trivial⟩
  have s14 := s13.extend (.resumed 2 rfl rfl) ⟨.still (by decide), trivial⟩
  have s15 := s14.extend (.refused 2 rfl rfl) ⟨.still (by decide), trivial⟩
  have s16 := s15.extend (.queued 2 rfl) ⟨.still (by decide), trivial⟩
  have s17 := s16.extend (.slept 2 rfl) ⟨.block (by decide), trivial⟩
  exact ⟨_, s17, ⟨by decide, by decide, 1, .write, rfl, rfl⟩, rfl, rfl, rfl⟩

end ZurichOS
