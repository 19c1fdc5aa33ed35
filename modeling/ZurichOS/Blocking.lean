import ZurichOS.Scheduler

set_option linter.all false

/-!
What a call to `task_block` or `task_sleep` promises its caller.  The calls mark the caller and
give the processor away, which they can only do if another task is ready: the idle task is never
in the queue.
-/

namespace ZurichOS

open Transitions

def Resting (s : Scheduler) (task : TaskRef) : Prop :=
  (s.tasks task).state = .blocked ∨ (s.tasks task).state = .sleeping

structure RestsOn (s after : Scheduler) (task : TaskRef) : Prop where
  state : (after.tasks task).state = (s.tasks task).state
  wakeTime : (after.tasks task).wakeTime = (s.tasks task).wakeTime

structure Awake (s : Scheduler) : Prop extends Scheduled s where
  awake : ∀ current, s.currentTask = some current → ¬ Resting s current

def Rouses (s : Scheduler) (task : TaskRef) : SchedulerCall → Prop
  | .taskUnblock other => other = some task ∧ (s.tasks task).state = .blocked
  | .schedulerTick now => Due s now task
  | _ => False

def SchedulerCall.Waits : SchedulerCall → Prop
  | .taskBlock _ => True
  | .taskSleep _ _ => True
  | _ => False

/-- What ends the wait of a task that has made the first call: `task_unblock`, or a tick at its
wake time or later. -/
def SchedulerCall.Ends (task : TaskRef) : SchedulerCall → SchedulerCall → Prop
  | .taskBlock _, .taskUnblock other => other = some task
  | .taskSleep now ms, .schedulerTick later => (now + ms) % 18446744073709551616 ≤ later
  | _, _ => False

/-- The task that makes the call does not run again in what follows, unless its wait ends. -/
def StaysAway (s : Scheduler) (call : SchedulerCall) (later : List SchedulerCall) : Prop :=
  call.Waits → ∀ task, s.currentTask = some task → (∀ event ∈ later, ¬ call.Ends task event) →
    (later.foldl Scheduler.call (s.call call)).currentTask ≠ some task

/-- Every task that waits in a run stays away from then on. -/
def WaitsAlong : Scheduler → List SchedulerCall → Prop
  | _, [] => True
  | s, call :: rest => (∀ later, later <+: rest → StaysAway s call later) ∧
      WaitsAlong (s.call call) rest

/-- The calls that wait find another task to go on with. -/
def LeavesProcessor (s : Scheduler) : SchedulerCall → Prop
  | .taskBlock _ => s.readyQueueHead ≠ none
  | .taskSleep _ _ => s.schedulerEnabled = true ∧ s.readyQueueHead ≠ none
  | _ => True

section Rest

variable {s : Scheduler} {task : TaskRef}

theorem RestsOn.refl (s : Scheduler) (task : TaskRef) : RestsOn s s task := ⟨rfl, rfl⟩

theorem RestsOn.trans {middle after : Scheduler} (first : RestsOn s middle task)
    (second : RestsOn middle after task) : RestsOn s after task :=
  ⟨second.state.trans first.state, second.wakeTime.trans first.wakeTime⟩

theorem RestsOn.resting {after : Scheduler} (rests : RestsOn s after task)
    (resting : Resting s task) : Resting after task := by
  rwa [Resting, rests.state]

theorem RestsOn.setTask {other : TaskRef} (apart : task ≠ other) (content : Task TaskRef) :
    RestsOn s (s.setTask other content) task := by
  have same := setTask_other s content apart
  exact ⟨by rw [same], by rw [same]⟩

theorem RestsOn.add {other : TaskRef} (apart : task ≠ other) :
    RestsOn s (readyQueueAdd s other) task :=
  ⟨by rw [readyQueueAdd_state, if_neg apart], (readyQueueAdd_frame s other).wakeTime task⟩

theorem Resting.not_running (resting : Resting s task) : (s.tasks task).state ≠ .running := by
  rcases resting with state | state <;> simp [state]

theorem Resting.not_ready (resting : Resting s task) : (s.tasks task).state ≠ .ready := by
  rcases resting with state | state <;> simp [state]

/-- The processor goes to the first task of the queue; the tasks that do not run are left. -/
theorem Scheduled.force_effect (scheduled : Scheduled s) :
    (s.readyQueueHead = none ∧ scheduleForce s = s) ∨
    ∃ next, s.readyQueueHead = some next ∧ (s.tasks next).state = .ready ∧
      (scheduleForce s).currentTask = some next ∧
      ((scheduleForce s).tasks next).state = .running ∧
      ∀ task ≠ next, (s.tasks task).state ≠ .running → RestsOn s (scheduleForce s) task := by
  obtain ⟨queue, sound⟩ := scheduled.sound
  obtain ⟨current, isCurrent, _⟩ := scheduled.current
  cases queue with
  | nil =>
      have head : s.readyQueueHead = none := sound.linked.head
      exact .inl ⟨head, by simp [scheduleForce, scheduled.unlocked, readyQueuePop, head]⟩
  | cons next rest =>
      obtain ⟨popped, pop, _, frame, state⟩ := readyQueuePop_cons sound.linked
      have isReady := (sound.ready next).mp List.mem_cons_self
      have away := sound.current next List.mem_cons_self
      have apart : current ≠ next := fun same => away (same ▸ isCurrent)
      have dispatched := scheduleForce_dispatched scheduled.unlocked pop
        (frame.current.trans isCurrent) apart
      refine .inr ⟨next, sound.linked.head, isReady.1, dispatched.current, ?_,
        fun task notNext stopped => ?_⟩
      · rw [dispatched.tasks, if_pos rfl]
      · have poppedRests : RestsOn s popped task := ⟨state task, frame.wakeTime task⟩
        have switched : ∀ middle, RestsOn s middle task → Dispatched middle next (scheduleForce s) →
            RestsOn s (scheduleForce s) task := fun middle rests dispatched =>
          rests.trans ⟨by rw [dispatched.tasks, if_neg notNext],
            by rw [dispatched.tasks, if_neg notNext]⟩
        refine switched _ ?_ dispatched
        split
        · rename_i runs
          refine poppedRests.trans (RestsOn.add ?_)
          rintro rfl
          exact stopped (poppedRests.state.symm.trans runs.1)
        · exact poppedRests

theorem Scheduled.force_rests (scheduled : Scheduled s) (resting : Resting s task) :
    RestsOn s (scheduleForce s) task := by
  rcases scheduled.force_effect with ⟨_, same⟩ | ⟨next, _, ready, _, _, rests⟩
  · rw [same]
    exact .refl s task
  · refine rests task ?_ resting.not_running
    rintro rfl
    exact resting.not_ready ready

theorem Scheduled.schedule_rests (scheduled : Scheduled s) (resting : Resting s task) :
    RestsOn s (ZurichOS.schedule s) task := by
  unfold ZurichOS.schedule
  split
  · exact .refl s task
  · exact scheduled.force_rests resting

theorem Scheduled.force_awake (scheduled : Scheduled s) (more : s.readyQueueHead ≠ none) :
    Awake (scheduleForce s) := by
  refine ⟨scheduled.force, fun current isCurrent => ?_⟩
  rcases scheduled.force_effect with ⟨none, _⟩ | ⟨next, _, _, isNext, running, _⟩
  · exact absurd none more
  · cases Option.some.inj (isNext.symm.trans isCurrent)
    exact fun resting => resting.not_running running

theorem Awake.force (awake : Awake s) : Awake (scheduleForce s) := by
  rcases awake.toScheduled.force_effect with ⟨_, same⟩ | ⟨next, head, _⟩
  · rwa [same]
  · exact awake.toScheduled.force_awake (by simp [head])

theorem Awake.schedule (awake : Awake s) : Awake (ZurichOS.schedule s) := by
  unfold ZurichOS.schedule
  split
  · exact awake
  · exact awake.force

theorem Awake.not_current (awake : Awake s) (resting : Resting s task) :
    s.currentTask ≠ some task := fun isCurrent => awake.awake task isCurrent resting

theorem Awake.stops (awake : Awake s) {current : TaskRef} (isCurrent : s.currentTask = some current)
    {content : Task TaskRef} (used : content.state ≠ .unused) (stops : content.state ≠ .running)
    (waits : content.state ≠ .ready) (resting : Resting s task) :
    RestsOn s (scheduleForce (s.setTask current content)) task ∧
      RestsOn s (ZurichOS.schedule (s.setTask current content)) task := by
  have marked := awake.toScheduled.retire isCurrent used stops waits
  have apart : task ≠ current := fun same => awake.not_current resting (same ▸ isCurrent)
  have rests : RestsOn s (s.setTask current content) task := .setTask apart content
  exact ⟨rests.trans (marked.force_rests (rests.resting resting)),
    rests.trans (marked.schedule_rests (rests.resting resting))⟩

/-- A tick wakes the sleepers that are due, and may then go on to another task. -/
theorem Awake.tick (awake : Awake s) (now : Nat) : Awake (schedulerTick s now) ∧
    ∀ task, Resting s task → ¬ Due s now task → RestsOn s (schedulerTick s now) task := by
  obtain ⟨current, isCurrent, _⟩ := awake.current
  cases enabled : s.schedulerEnabled with
  | false =>
      have same : schedulerTick s now = s := by simp [schedulerTick, isCurrent, enabled]
      rw [same]
      exact ⟨awake, fun task _ _ => .refl s task⟩
  | true =>
      obtain ⟨woken, queue, loop, ticked⟩ :=
        schedulerTick_woken awake.toScheduled isCurrent enabled now
      have waits : ∀ current, s.currentTask = some current → ¬ Due s now current :=
        fun current isCurrent due => awake.awake current isCurrent (.inr due.1)
      have wokenAwake : Awake woken := by
        refine ⟨loop.scheduled awake.toScheduled waits, fun other isOther => ?_⟩
        have isTask := loop.frame.current.symm.trans isOther
        rw [Resting, loop.state, if_neg (waits other isTask)]
        exact awake.awake other isTask
      have rests : ∀ task, Resting s task → ¬ Due s now task → RestsOn s woken task :=
        fun task _ early => ⟨by rw [loop.state, if_neg early], loop.frame.wakeTime task⟩
      rw [ticked]
      split
      · exact ⟨wokenAwake.schedule, fun task resting early => (rests task resting early).trans
          (wokenAwake.schedule_rests ((rests task resting early).resting resting))⟩
      · exact ⟨wokenAwake, rests⟩

theorem taskCreate_rests (name : String) (stackSize stack : Nat) (used : (s.tasks task).state ≠ .unused) :
    RestsOn s (taskCreate s name stackSize stack).2 task := by
  unfold taskCreate
  split
  · exact .refl s task
  rename_i other found
  have unused : (s.tasks other).state = .unused := by simpa using List.find?_some found
  have apart : task ≠ other := fun same => used (same ▸ unused)
  dsimp only
  split
  · exact .refl s task
  have counted : RestsOn s { s with nextTid := Words.u32 (s.nextTid + 1) } task := ⟨rfl, rfl⟩
  exact counted.trans ((RestsOn.setTask apart _).trans (.add apart))

theorem taskUnblock_rests {other : Option TaskRef}
    (quiet : ¬ (other = some task ∧ (s.tasks task).state = .blocked)) :
    RestsOn s (taskUnblock s other) task := by
  unfold taskUnblock
  split
  · exact .refl s task
  split
  · exact .refl s task
  rename_i other waits
  have apart : task ≠ other := by
    rintro rfl
    exact quiet ⟨rfl, not_not.mp waits⟩
  exact (RestsOn.setTask apart _).trans (.add apart)

/-- A task that waits and is not woken goes on waiting. -/
theorem Awake.call_rests (awake : Awake s) (call : SchedulerCall) (resting : Resting s task)
    (quiet : ¬ Rouses s task call) : RestsOn s (s.call call) task := by
  obtain ⟨current, isCurrent, _⟩ := awake.current
  cases call with
  | taskCreate name stackSize stack =>
      refine taskCreate_rests name stackSize stack ?_
      rcases resting with state | state <;> simp [state]
  | schedule => exact awake.schedule_rests resting
  | schedulerTick now => exact (awake.tick now).2 task resting quiet
  | taskBlock reason =>
      simp only [Scheduler.call, taskBlock, isCurrent]
      exact (awake.stops isCurrent (by simp) (by simp) (by simp) resting).1
  | taskUnblock other => exact taskUnblock_rests quiet
  | taskSleep now ms =>
      simp only [Scheduler.call, taskSleep, isCurrent]
      exact (awake.stops isCurrent (by simp) (by simp) (by simp) resting).2
  | taskExit =>
      simp only [Scheduler.call, taskExit, isCurrent]
      exact (awake.stops isCurrent (by simp) (by simp) (by simp) resting).1
  | schedulerEnable => exact ⟨rfl, rfl⟩
  | schedulerDisable => exact ⟨rfl, rfl⟩

theorem taskCreate_current (s : Scheduler) (name : String) (stackSize stack : Nat) :
    (taskCreate s name stackSize stack).2.currentTask = s.currentTask := by
  unfold taskCreate
  split
  · rfl
  dsimp only
  split
  · rfl
  · exact (readyQueueAdd_frame _ _).current

theorem taskUnblock_current (s : Scheduler) (task : Option TaskRef) :
    (taskUnblock s task).currentTask = s.currentTask := by
  unfold taskUnblock
  split
  · rfl
  split
  · rfl
  · exact (readyQueueAdd_frame _ _).current

theorem Awake.same {after : Scheduler} (awake : Awake s) (scheduled : Scheduled after)
    (sameCurrent : after.currentTask = s.currentTask)
    (rests : ∀ current, s.currentTask = some current → RestsOn s after current) : Awake after := by
  refine ⟨scheduled, fun current isCurrent => ?_⟩
  rw [sameCurrent] at isCurrent
  rw [Resting, (rests current isCurrent).state]
  exact awake.awake current isCurrent

def Halted (s : Scheduler) (task : TaskRef) : SchedulerCall → Prop
  | .taskBlock _ => (s.tasks task).state = .blocked
  | .taskSleep now ms => (s.tasks task).state = .sleeping ∧
      (s.tasks task).wakeTime = (now + ms) % 18446744073709551616
  | _ => False

theorem Halted.resting {call : SchedulerCall} (halted : Halted s task call) : Resting s task := by
  cases call with
  | taskBlock => exact .inl halted
  | taskSleep => exact .inr halted.1
  | _ => exact halted.elim

theorem Halted.rests {after : Scheduler} {call : SchedulerCall} (halted : Halted s task call)
    (rests : RestsOn s after task) : Halted after task call := by
  cases call with
  | taskBlock => exact rests.state.trans halted
  | taskSleep => exact ⟨rests.state.trans halted.1, rests.wakeTime.trans halted.2⟩
  | _ => exact halted

/-- Nothing but the end of its wait rouses the task. -/
theorem Halted.quiet {call event : SchedulerCall} (halted : Halted s task call)
    (goesOn : ¬ call.Ends task event) : ¬ Rouses s task event := by
  cases call with
  | taskBlock =>
      have blocked : (s.tasks task).state = .blocked := halted
      cases event with
      | taskUnblock other => exact fun rouses => goesOn rouses.1
      | schedulerTick now =>
          rintro ⟨sleeping, _⟩
          rw [blocked] at sleeping
          cases sleeping
      | _ => exact id
  | taskSleep slept ms =>
      obtain ⟨sleeping, wakeTime⟩ := halted
      cases event with
      | taskUnblock other =>
          rintro ⟨_, blocked⟩
          rw [sleeping] at blocked
          cases blocked
      | schedulerTick now =>
          rintro ⟨_, due⟩
          rw [wakeTime] at due
          exact goesOn due
      | _ => exact id
  | _ => exact halted.elim

theorem scheduleForce_idle (head : s.readyQueueHead = none) : scheduleForce s = s := by
  simp [scheduleForce, readyQueuePop, head]

theorem Scheduled.wait (scheduled : Scheduled s) (isCurrent : s.currentTask = some task)
    {call : SchedulerCall} (waits : call.Waits) :
    ∃ marked, Scheduled marked ∧ marked.currentTask = some task ∧
      marked.readyQueueHead = s.readyQueueHead ∧ Halted marked task call ∧
      (LeavesProcessor s call → s.call call = scheduleForce marked) ∧
      (¬ LeavesProcessor s call → s.call call = marked) := by
  cases call with
  | taskBlock reason =>
      have block : s.call (.taskBlock reason) = scheduleForce (s.setTask task
          { s.tasks task with state := .blocked, blockReason := reason }) := by
        simp only [Scheduler.call, taskBlock, isCurrent]
      refine ⟨_, scheduled.retire isCurrent (by simp) (by simp) (by simp), isCurrent, rfl, ?_,
        fun _ => block, fun stays => ?_⟩
      · simp [Halted, setTask_self]
      · rw [block]
        exact scheduleForce_idle (not_not.mp stays)
  | taskSleep now ms =>
      let content := { s.tasks task with
        wakeTime := (now + ms) % 18446744073709551616, state := .sleeping }
      have sleep : s.call (.taskSleep now ms) = ZurichOS.schedule (s.setTask task content) := by
        simp only [Scheduler.call, taskSleep, isCurrent, content]
      refine ⟨s.setTask task content, scheduled.retire isCurrent (by simp [content])
        (by simp [content]) (by simp [content]), isCurrent, rfl, ?_, fun leaves => ?_,
        fun stays => ?_⟩
      · simp [Halted, setTask_self, content]
      · rw [sleep, ZurichOS.schedule, if_neg (by
          simp [Scheduler.setTask, leaves.1, scheduled.unlocked])]
      · rw [sleep, ZurichOS.schedule]
        split
        · rfl
        · rename_i enabled
          have on : s.schedulerEnabled = true := by
            simpa [Scheduler.setTask, scheduled.unlocked] using enabled
          exact scheduleForce_idle (by_contra fun head => stays ⟨on, head⟩)
  | _ => exact waits.elim

theorem Awake.call (awake : Awake s) (call : SchedulerCall) (leaves : LeavesProcessor s call) :
    Awake (s.call call) := by
  obtain ⟨current, isCurrent, used, _⟩ := awake.current
  have wait : call.Waits → Awake (s.call call) := fun waits => by
    obtain ⟨marked, scheduled, _, head, _, forced, _⟩ := awake.toScheduled.wait isCurrent waits
    rw [forced leaves]
    refine scheduled.force_awake ?_
    rw [head]
    cases call with
    | taskBlock => exact leaves
    | taskSleep => exact leaves.2
    | _ => exact waits.elim
  cases call with
  | taskCreate name stackSize stack =>
      refine awake.same (taskCreate_scheduled awake.toScheduled name stackSize stack)
        (taskCreate_current s name stackSize stack) fun other isOther => ?_
      cases Option.some.inj (isCurrent.symm.trans isOther)
      exact taskCreate_rests name stackSize stack used
  | schedule => exact awake.schedule
  | schedulerTick now => exact (awake.tick now).1
  | taskBlock reason => exact wait trivial
  | taskUnblock task =>
      have quiet : ∀ other, s.currentTask = some other →
          ¬ (task = some other ∧ (s.tasks other).state = .blocked) :=
        fun other isOther both => awake.awake other isOther (.inl both.2)
      refine awake.same (taskUnblock_scheduled awake.toScheduled fun other isOther same blocked =>
        quiet other isOther ⟨same, blocked⟩) (taskUnblock_current s task) fun other isOther => ?_
      exact taskUnblock_rests (quiet other isOther)
  | taskSleep now ms => exact wait trivial
  | taskExit =>
      have marked : Awake (s.setTask current { s.tasks current with state := .zombie }) := by
        refine ⟨awake.toScheduled.retire isCurrent (by simp) (by simp) (by simp),
          fun other isOther => ?_⟩
        cases Option.some.inj (isCurrent.symm.trans isOther)
        simp [Resting, setTask_self]
      have exits : s.call .taskExit =
          scheduleForce (s.setTask current { s.tasks current with state := .zombie }) := by
        simp only [Scheduler.call, taskExit, isCurrent]
      rw [exits]
      exact marked.force
  | schedulerEnable =>
      exact awake.same (call_scheduled awake.toScheduled .schedulerEnable trivial) rfl
        fun _ _ => ⟨rfl, rfl⟩
  | schedulerDisable =>
      exact awake.same (call_scheduled awake.toScheduled .schedulerDisable trivial) rfl
        fun _ _ => ⟨rfl, rfl⟩

theorem Halted.away {call : SchedulerCall} {later : List SchedulerCall}
    (halted : Halted s task call) (awake : Awake s)
    (leaves : Along Scheduler.call LeavesProcessor s later)
    (goesOn : ∀ event ∈ later, ¬ call.Ends task event) :
    (later.foldl Scheduler.call s).currentTask ≠ some task := by
  induction later generalizing s with
  | nil => exact awake.not_current halted.resting
  | cons event rest ih =>
      have quiet := halted.quiet (goesOn event List.mem_cons_self)
      exact ih (halted.rests (awake.call_rests event halted.resting quiet))
        (awake.call event leaves.1) leaves.2 fun other member =>
          goesOn other (List.mem_cons_of_mem event member)

theorem Awake.stays_away (awake : Awake s) {call : SchedulerCall} {later : List SchedulerCall}
    (leaves : LeavesProcessor s call)
    (later_leaves : Along Scheduler.call LeavesProcessor (s.call call) later) :
    StaysAway s call later := by
  intro waits task isCurrent goesOn
  obtain ⟨marked, scheduled, _, _, halted, forced, _⟩ := awake.toScheduled.wait isCurrent waits
  have haltedAfter : Halted (s.call call) task call := by
    rw [forced leaves]
    exact halted.rests (scheduled.force_rests halted.resting)
  exact haltedAfter.away (awake.call call leaves) later_leaves goesOn

theorem Awake.leaves (awake : Awake s) {call : SchedulerCall} (away : StaysAway s call []) :
    LeavesProcessor s call := by
  obtain ⟨current, isCurrent, _⟩ := awake.current
  by_contra stays
  have waits : call.Waits := by
    cases call with
    | taskBlock => trivial
    | taskSleep => trivial
    | _ => exact stays trivial
  obtain ⟨marked, _, same, _, _, _, kept⟩ := awake.toScheduled.wait isCurrent waits
  refine away waits current isCurrent (by simp) ?_
  rw [List.foldl_nil, kept stays]
  exact same

theorem Awake.waitsAlong_iff (awake : Awake s) (calls : List SchedulerCall) :
    WaitsAlong s calls ↔ Along Scheduler.call LeavesProcessor s calls := by
  induction calls generalizing s with
  | nil => rfl
  | cons call rest ih =>
      constructor
      · rintro ⟨away, later⟩
        have leaves := awake.leaves (away [] List.nil_prefix)
        exact ⟨leaves, (ih (awake.call call leaves)).mp later⟩
      · rintro ⟨leaves, later⟩
        refine ⟨fun front isFront => ?_, (ih (awake.call call leaves)).mpr later⟩
        obtain ⟨back, rfl⟩ := isFront
        exact awake.stays_away leaves (along_append.mp later).1

theorem schedulerBoot_current (stack : Nat) :
    (schedulerBoot stack).currentTask = some 0 ∧
      ((schedulerBoot stack).tasks 0).state = .running := by
  unfold schedulerBoot schedulerInit taskCreate
  dsimp only
  rw [allocTaskSlot_first (by simp) (by simp [Task.zero])]
  by_cases failed : stack = 0
  · simp [failed]
  · simp [failed, readyQueueAdd, readyQueuePop, Scheduler.setTask]

theorem schedulerBoot_awake (stack : Nat) : Awake (schedulerBoot stack) := by
  obtain ⟨isKernel, running⟩ := schedulerBoot_current stack
  refine ⟨schedulerBoot_scheduled stack, fun current isCurrent => ?_⟩
  cases Option.some.inj (isKernel.symm.trans isCurrent)
  exact fun resting => resting.not_running running

end Rest

/-- In a run from `scheduler_init` every task that blocks or sleeps stays away until its wait
ends exactly if each of these calls finds another task in the ready queue, and a sleep the
scheduler enabled. -/
theorem scheduler_waits_iff (stack : Nat) (calls : List SchedulerCall) :
    WaitsAlong (schedulerBoot stack) calls ↔
      Along Scheduler.call LeavesProcessor (schedulerBoot stack) calls :=
  (schedulerBoot_awake stack).waitsAlong_iff calls

/-- The kernel task blocks and is alone: the idle task has been taken out of the queue. -/
theorem task_block_returns : ¬ ∀ stack calls, WaitsAlong (schedulerBoot stack) calls := by
  intro waits
  have stays := (waits 0xD0000018 [.taskBlock 1]).1 [] List.nil_prefix trivial 0
    (schedulerBoot_current 0xD0000018).1 (by simp)
  revert stays
  decide

end ZurichOS
