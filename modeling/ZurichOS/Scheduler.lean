import Mathlib.Logic.Equiv.Fin.Basic
import ZurichOS.LinkedQueue
import ZurichOS.SchedulerCore
import ZurichOS.Transitions

set_option linter.all false

/-!
The ready queue of the scheduler.  One lemma says for each call when the queue stays the
list of the ready tasks; a run has the property throughout exactly if no call of it wakes
the task that is still current.
-/

namespace ZurichOS

open Transitions LinkedQueue

def Scheduler.Queue (s : Scheduler) (queue : List TaskRef) : Prop :=
  Holds s.readyQueueHead s.readyQueueTail (fun task => (s.tasks task).next) queue

/-- The queue is a list of the ready tasks, and nothing runs but the current task. -/
structure Queued (s : Scheduler) (queue : List TaskRef) : Prop where
  linked : s.Queue queue
  ready : ∀ task, task ∈ queue ↔ (s.tasks task).state = .ready ∧ s.idleTask ≠ some task
  running : ∀ task, (s.tasks task).state = .running → s.currentTask = some task

structure ReadyQueue (s : Scheduler) (queue : List TaskRef) : Prop extends Queued s queue where
  current : ∀ task ∈ queue, s.currentTask ≠ some task

def QueueSound (s : Scheduler) : Prop := ∃ queue, ReadyQueue s queue

structure Scheduled (s : Scheduler) : Prop where
  sound : QueueSound s
  unlocked : s.schedulerLock = false
  current : ∃ current, s.currentTask = some current ∧ (s.tasks current).state ≠ .unused ∧
    s.idleTask ≠ some current
  idle : ∀ idle, s.idleTask = some idle → (s.tasks idle).state = .ready

def Due (s : Scheduler) (now : Nat) (task : TaskRef) : Prop :=
  (s.tasks task).state = .sleeping ∧ (s.tasks task).wakeTime ≤ now

instance (s : Scheduler) (now : Nat) (task : TaskRef) : Decidable (Due s now task) :=
  inferInstanceAs (Decidable (_ ∧ _))

/-- The calls that do not wake the current task, or wake it in a tick that goes on to
another one. -/
def KeepsQueue (s : Scheduler) : SchedulerCall → Prop
  | .taskUnblock task => ∀ current, s.currentTask = some current → task = some current →
      (s.tasks current).state ≠ .blocked
  | .schedulerTick now => ∀ current, s.currentTask = some current →
      s.schedulerEnabled = true → Due s now current →
        (s.tasks current).tid ≠ 0 ∧
          (s.readyQueueHead ≠ none ∨ ∃ earlier < current, Due s now earlier)
  | _ => True

structure QueueFrame (s after : Scheduler) : Prop where
  current : after.currentTask = s.currentTask
  idle : after.idleTask = s.idleTask
  lock : after.schedulerLock = s.schedulerLock
  enabled : after.schedulerEnabled = s.schedulerEnabled
  tid : ∀ task, (after.tasks task).tid = (s.tasks task).tid
  wakeTime : ∀ task, (after.tasks task).wakeTime = (s.tasks task).wakeTime

variable {s : Scheduler} {queue : List TaskRef}

theorem QueueFrame.refl (s : Scheduler) : QueueFrame s s :=
  ⟨rfl, rfl, rfl, rfl, fun _ => rfl, fun _ => rfl⟩

theorem QueueFrame.trans {middle after : Scheduler} (first : QueueFrame s middle)
    (second : QueueFrame middle after) : QueueFrame s after :=
  ⟨second.current.trans first.current, second.idle.trans first.idle,
    second.lock.trans first.lock, second.enabled.trans first.enabled,
    fun task => (second.tid task).trans (first.tid task),
    fun task => (second.wakeTime task).trans (first.wakeTime task)⟩

theorem setTask_self (s : Scheduler) (task : TaskRef) (content : Task TaskRef) :
    (s.setTask task content).tasks task = content := by
  simp [Scheduler.setTask]

theorem setTask_other (s : Scheduler) {task other : TaskRef} (content : Task TaskRef)
    (apart : other ≠ task) : (s.setTask task content).tasks other = s.tasks other := by
  simp [Scheduler.setTask, apart]

@[simp] theorem setTask_idleTask (s : Scheduler) (task : TaskRef) (content : Task TaskRef) :
    (s.setTask task content).idleTask = s.idleTask := rfl

theorem readyQueueAdd_frame (s : Scheduler) (task : TaskRef) :
    QueueFrame s (readyQueueAdd s task) := by
  unfold readyQueueAdd
  dsimp only
  split <;> refine ⟨rfl, rfl, rfl, rfl, fun other => ?_, fun other => ?_⟩ <;>
    simp only [Scheduler.setTask] <;> grind -ring -linarith

theorem readyQueueAdd_state (s : Scheduler) (task other : TaskRef) :
    ((readyQueueAdd s task).tasks other).state =
      if other = task then .ready else (s.tasks other).state := by
  unfold readyQueueAdd
  dsimp only
  split <;> simp only [Scheduler.setTask] <;> grind -ring -linarith

theorem readyQueueAdd_next (s : Scheduler) (task other : TaskRef) :
    ((readyQueueAdd s task).tasks other).next =
      if s.readyQueueTail = some other then some task
      else if other = task then none else (s.tasks other).next := by
  unfold readyQueueAdd
  dsimp only
  split <;> simp only [Scheduler.setTask] at * <;> grind -ring -linarith

theorem readyQueueAdd_queue (linked : s.Queue queue) {task : TaskRef} (absent : task ∉ queue) :
    (readyQueueAdd s task).Queue (queue ++ [task]) := by
  have member : ∀ last, s.readyQueueTail = some last → last ∈ queue := fun last isLast =>
    List.mem_of_getLast? (linked.tail.symm.trans isLast)
  have pushed : Holds (s.readyQueueHead.or (some task)) (some task)
      (fun other => ((readyQueueAdd s task).tasks other).next) (queue ++ [task]) := by
    refine linked.push absent ?_ ?_ ?_
    · rw [readyQueueAdd_next, if_neg fun isLast => absent (member task isLast), if_pos rfl]
    · intro last isLast
      rw [readyQueueAdd_next, if_pos isLast]
    · intro node inside notLast
      rw [readyQueueAdd_next, if_neg notLast, if_neg (ne_of_mem_of_not_mem inside absent)]
  have ends : (readyQueueAdd s task).readyQueueHead = s.readyQueueHead.or (some task) ∧
      (readyQueueAdd s task).readyQueueTail = some task := by
    have together := linked.tail_none_iff
    unfold readyQueueAdd
    dsimp only
    split <;> simp only [Scheduler.setTask] at * <;> cases head : s.readyQueueHead <;> simp_all
  rw [Scheduler.Queue, ends.1, ends.2]
  exact pushed

theorem ReadyQueue.add (sound : ReadyQueue s queue) {task : TaskRef} (absent : task ∉ queue)
    (notCurrent : s.currentTask ≠ some task) (notIdle : s.idleTask ≠ some task)
    (content : Task TaskRef) :
    ReadyQueue (readyQueueAdd (s.setTask task content) task) (queue ++ [task]) := by
  have frame := readyQueueAdd_frame (s.setTask task content) task
  have linked : (s.setTask task content).Queue queue := sound.linked.congr fun other inside => by
    rw [setTask_other _ _ (ne_of_mem_of_not_mem inside absent)]
  refine ⟨⟨readyQueueAdd_queue linked absent, fun other => ?_, fun other running => ?_⟩,
    fun other inside current => ?_⟩
  · rw [readyQueueAdd_state, frame.idle, List.mem_append, List.mem_singleton]
    by_cases same : other = task
    · subst same
      simpa using notIdle
    · rw [setTask_other _ _ same]
      simpa [same] using sound.ready other
  · rw [readyQueueAdd_state] at running
    rw [frame.current]
    by_cases same : other = task
    · rw [if_pos same] at running
      cases running
    · rw [if_neg same, setTask_other _ _ same] at running
      exact sound.running other running
  · rw [frame.current] at current
    rcases List.mem_append.mp inside with inside | isTask
    · exact sound.current other inside current
    · exact notCurrent (List.mem_singleton.mp isTask ▸ current)

theorem readyQueuePop_cons {first : TaskRef} {rest : List TaskRef}
    (linked : s.Queue (first :: rest)) :
    ∃ popped, readyQueuePop s = (some first, popped) ∧ popped.Queue rest ∧
      QueueFrame s popped ∧ ∀ task, (popped.tasks task).state = (s.tasks task).state := by
  have head : s.readyQueueHead = some first := linked.head
  have holds : Holds (some first) s.readyQueueTail (fun task => (s.tasks task).next)
      (first :: rest) := head ▸ linked
  unfold readyQueuePop
  rw [head]
  refine ⟨_, rfl, ?_, ?_, ?_⟩
  · obtain ⟨_, same, popped⟩ := holds.pop
    cases same
    have absent := (List.nodup_cons.mp linked.nodup).1
    split
    · rename_i last
      rw [if_pos last] at popped
      refine popped.congr fun node inside => ?_
      rw [setTask_other _ _ (ne_of_mem_of_not_mem inside absent)]
    · rename_i more
      rw [if_neg more] at popped
      refine popped.congr fun node inside => ?_
      rw [setTask_other _ _ (ne_of_mem_of_not_mem inside absent)]
  · split <;> refine ⟨rfl, rfl, rfl, rfl, fun other => ?_, fun other => ?_⟩ <;>
      simp only [Scheduler.setTask] <;> grind -ring -linarith
  · intro other
    split <;> simp only [Scheduler.setTask] <;> grind -ring -linarith

structure Dispatched (s : Scheduler) (next : TaskRef) (after : Scheduler) : Prop where
  head : after.readyQueueHead = s.readyQueueHead
  tail : after.readyQueueTail = s.readyQueueTail
  current : after.currentTask = some next
  idle : after.idleTask = s.idleTask
  lock : after.schedulerLock = s.schedulerLock
  tasks : ∀ task, after.tasks task =
    if task = next then { s.tasks next with state := .running } else s.tasks task

theorem scheduleForce_dispatched {first current : TaskRef} {popped : Scheduler}
    (unlocked : s.schedulerLock = false) (pop : readyQueuePop s = (some first, popped))
    (isCurrent : popped.currentTask = some current) (apart : current ≠ first) :
    Dispatched
      (if (popped.tasks current).state = .running ∧ popped.idleTask ≠ some current then
        readyQueueAdd popped current else popped) first (scheduleForce s) := by
  have different : ¬ some current = some first := fun same => apart (Option.some.inj same)
  simp only [scheduleForce, unlocked, pop, Bool.false_eq_true, if_false, isCurrent,
    if_neg different]
  split <;> split <;> exact ⟨rfl, rfl, rfl, rfl, rfl, fun task => rfl⟩

theorem Dispatched.scheduled {next : TaskRef} {after : Scheduler}
    (dispatched : Dispatched s next after) (linked : s.Queue queue) (absent : next ∉ queue)
    (unlocked : s.schedulerLock = false) (notIdle : s.idleTask ≠ some next)
    (ready : ∀ task, task ≠ next →
      (task ∈ queue ↔ (s.tasks task).state = .ready ∧ s.idleTask ≠ some task))
    (running : ∀ task, task ≠ next → (s.tasks task).state ≠ .running)
    (idle : ∀ idle, s.idleTask = some idle → (s.tasks idle).state = .ready) :
    Scheduled after := by
  have other : ∀ task, task ≠ next → after.tasks task = s.tasks task := fun task apart => by
    rw [dispatched.tasks, if_neg apart]
  have own : (after.tasks next).state = .running := by rw [dispatched.tasks, if_pos rfl]
  refine ⟨⟨queue, ⟨?_, fun task => ?_, fun task runs => ?_⟩, fun task inside current => ?_⟩,
    dispatched.lock.trans unlocked, ⟨next, dispatched.current, ?_, ?_⟩, fun task isIdle => ?_⟩
  · rw [Scheduler.Queue, dispatched.head, dispatched.tail]
    exact linked.congr fun node inside => by rw [other node (ne_of_mem_of_not_mem inside absent)]
  · rw [dispatched.idle]
    by_cases same : task = next
    · subst same
      simp [own, absent]
    · rw [other task same]
      exact ready task same
  · by_cases same : task = next
    · rw [same, dispatched.current]
    · rw [other task same] at runs
      exact absurd runs (running task same)
  · rw [dispatched.current] at current
    exact absent (Option.some.inj current ▸ inside)
  · rw [own]
    exact fun unused => by cases unused
  · rwa [dispatched.idle]
  · rw [dispatched.idle] at isIdle
    rw [other task fun same => notIdle (same ▸ isIdle)]
    exact idle task isIdle

/-- A queue without the current task in front: the first task runs, and the current one
goes to the end if it was running. -/
theorem scheduleForce_scheduled (queued : Queued s queue) (unlocked : s.schedulerLock = false)
    {current : TaskRef} (isCurrent : s.currentTask = some current)
    (notIdle : s.idleTask ≠ some current) (notFirst : s.readyQueueHead ≠ some current)
    (idle : ∀ idle, s.idleTask = some idle → (s.tasks idle).state = .ready)
    (empty : queue = [] → Scheduled s) : Scheduled (scheduleForce s) := by
  cases queue with
  | nil =>
      have head : s.readyQueueHead = none := queued.linked.head
      have same : scheduleForce s = s := by
        simp [scheduleForce, unlocked, readyQueuePop, head]
      rw [same]
      exact empty rfl
  | cons first rest =>
      obtain ⟨popped, pop, linked, frame, state⟩ := readyQueuePop_cons queued.linked
      obtain ⟨fresh, _⟩ := List.nodup_cons.mp queued.linked.nodup
      have apart : current ≠ first := fun same => notFirst (same ▸ queued.linked.head)
      have firstReady := (queued.ready first).mp List.mem_cons_self
      have members : ∀ task, task ≠ first →
          (task ∈ rest ↔ (s.tasks task).state = .ready ∧ s.idleTask ≠ some task) := by
        intro task different
        rw [← queued.ready task, List.mem_cons]
        simp [different]
      have dispatched := scheduleForce_dispatched unlocked pop
        (frame.current.trans isCurrent) apart
      rw [state, frame.idle] at dispatched
      by_cases runs : (s.tasks current).state = .running
      · rw [if_pos ⟨runs, notIdle⟩] at dispatched
        have added := readyQueueAdd_frame popped current
        have notQueued : current ∉ rest := fun inside => by
          have isReady := ((members current apart).mp inside).1
          rw [runs] at isReady
          cases isReady
        refine dispatched.scheduled (readyQueueAdd_queue linked notQueued) ?_ ?_ ?_ ?_ ?_ ?_
        · simpa [fresh] using apart.symm
        · rw [added.lock, frame.lock, unlocked]
        · rw [added.idle, frame.idle]
          exact firstReady.2
        · intro task different
          rw [readyQueueAdd_state, added.idle, frame.idle, state, List.mem_append,
            members task different]
          by_cases same : task = current
          · simpa [same] using notIdle
          · simp [same]
        · intro task different running
          rw [readyQueueAdd_state, state] at running
          by_cases same : task = current
          · simp [same] at running
          · rw [if_neg same] at running
            exact same (Option.some.inj ((queued.running task running).symm.trans isCurrent))
        · intro task isIdle
          rw [added.idle, frame.idle] at isIdle
          rw [readyQueueAdd_state, state]
          split
          · rfl
          · exact idle task isIdle
      · rw [if_neg fun both => runs both.1] at dispatched
        refine dispatched.scheduled linked fresh (frame.lock.trans unlocked) ?_ ?_ ?_ ?_
        · rw [frame.idle]
          exact firstReady.2
        · intro task different
          rw [state, frame.idle]
          exact members task different
        · intro task different running
          rw [state] at running
          have same := Option.some.inj ((queued.running task running).symm.trans isCurrent)
          exact runs (same ▸ running)
        · intro task isIdle
          rw [frame.idle] at isIdle
          rw [state]
          exact idle task isIdle

theorem Scheduled.congr {after : Scheduler} (scheduled : Scheduled s)
    (head : after.readyQueueHead = s.readyQueueHead)
    (tail : after.readyQueueTail = s.readyQueueTail)
    (current : after.currentTask = s.currentTask) (idle : after.idleTask = s.idleTask)
    (lock : after.schedulerLock = s.schedulerLock)
    (state : ∀ task, (after.tasks task).state = (s.tasks task).state)
    (next : ∀ task, (after.tasks task).next = (s.tasks task).next) : Scheduled after := by
  obtain ⟨⟨queue, ⟨linked, ready, running⟩, away⟩, unlocked, present, waits⟩ := scheduled
  have links : after.Queue queue := by
    rw [Scheduler.Queue, head, tail]
    exact linked.congr fun node _ => next node
  refine ⟨⟨queue, ⟨links, ?_, ?_⟩, ?_⟩, lock.trans unlocked, ?_, ?_⟩
  · simpa only [state, idle] using ready
  · simpa only [state, current] using running
  · simpa only [current] using away
  · simpa only [state, current, idle] using present
  · simpa only [state, idle] using waits

theorem Scheduled.force (scheduled : Scheduled s) : Scheduled (scheduleForce s) := by
  obtain ⟨current, isCurrent, _, notIdle⟩ := scheduled.current
  obtain ⟨queue, sound⟩ := scheduled.sound
  have notFirst : s.readyQueueHead ≠ some current := fun first =>
    sound.current current (List.mem_of_mem_head? (sound.linked.head.symm.trans first)) isCurrent
  exact scheduleForce_scheduled sound.toQueued scheduled.unlocked isCurrent notIdle notFirst
    scheduled.idle fun _ => scheduled

theorem Scheduled.schedule (scheduled : Scheduled s) : Scheduled (schedule s) := by
  unfold ZurichOS.schedule
  split
  · exact scheduled
  · exact scheduled.force

theorem Scheduled.retire (scheduled : Scheduled s) {current : TaskRef}
    (isCurrent : s.currentTask = some current) {content : Task TaskRef}
    (used : content.state ≠ .unused)
    (stops : content.state ≠ .running) (waits : content.state ≠ .ready) :
    Scheduled (s.setTask current content) := by
  obtain ⟨queue, sound⟩ := scheduled.sound
  obtain ⟨task, isTask, _, notIdle⟩ := scheduled.current
  cases Option.some.inj (isCurrent.symm.trans isTask)
  have absent : current ∉ queue := fun inside => sound.current current inside isCurrent
  refine ⟨⟨queue, ⟨?_, fun other => ?_, fun other runs => ?_⟩, sound.current⟩,
    scheduled.unlocked, ⟨current, isCurrent, ?_, notIdle⟩, fun idle isIdle => ?_⟩
  · refine sound.linked.congr fun node inside => ?_
    rw [setTask_other _ _ (ne_of_mem_of_not_mem inside absent)]
  · by_cases same : other = current
    · subst same
      simp [setTask_self, absent, waits]
    · rw [setTask_other _ _ same]
      exact sound.ready other
  · by_cases same : other = current
    · subst same
      rw [setTask_self] at runs
      exact absurd runs stops
    · rw [setTask_other _ _ same] at runs
      exact sound.running other runs
  · rwa [setTask_self]
  · have apart : idle ≠ current := fun same => notIdle (same ▸ isIdle)
    rw [setTask_other _ _ apart]
    exact scheduled.idle idle isIdle

theorem taskBlock_scheduled (scheduled : Scheduled s) (reason : Nat) :
    Scheduled (taskBlock s reason) := by
  obtain ⟨current, isCurrent, _⟩ := scheduled.current
  simp only [taskBlock, isCurrent]
  exact (scheduled.retire isCurrent (by simp) (by simp) (by simp)).force

theorem taskSleep_scheduled (scheduled : Scheduled s) (now ms : Nat) :
    Scheduled (taskSleep s now ms) := by
  obtain ⟨current, isCurrent, _⟩ := scheduled.current
  simp only [taskSleep, isCurrent]
  exact (scheduled.retire isCurrent (by simp) (by simp) (by simp)).schedule

theorem taskExit_scheduled (scheduled : Scheduled s) : Scheduled (taskExit s) := by
  obtain ⟨current, isCurrent, _⟩ := scheduled.current
  simp only [taskExit, isCurrent]
  exact (scheduled.retire isCurrent (by simp) (by simp) (by simp)).force

theorem Scheduled.add (scheduled : Scheduled s) {task : TaskRef}
    (waits : (s.tasks task).state ≠ .ready) (notCurrent : s.currentTask ≠ some task)
    (content : Task TaskRef) : Scheduled (readyQueueAdd (s.setTask task content) task) := by
  obtain ⟨queue, sound⟩ := scheduled.sound
  have frame := readyQueueAdd_frame (s.setTask task content) task
  have absent : task ∉ queue := fun inside => waits ((sound.ready task).mp inside).1
  have notIdle : s.idleTask ≠ some task := fun isIdle => waits (scheduled.idle task isIdle)
  obtain ⟨current, isCurrent, used, idleApart⟩ := scheduled.current
  refine ⟨⟨_, sound.add absent notCurrent notIdle content⟩, frame.lock.trans scheduled.unlocked,
    ⟨current, frame.current.trans isCurrent, ?_, ?_⟩, fun idle isIdle => ?_⟩
  · have apart : current ≠ task := fun same => notCurrent (same ▸ isCurrent)
    rwa [readyQueueAdd_state, if_neg apart, setTask_other _ _ apart]
  · rwa [frame.idle]
  · rw [frame.idle] at isIdle
    have apart : idle ≠ task := fun same => notIdle (same ▸ isIdle)
    rw [readyQueueAdd_state, if_neg apart, setTask_other _ _ apart]
    exact scheduled.idle idle isIdle

theorem taskCreate_scheduled (scheduled : Scheduled s) (name : String) (stackSize stack : Nat) :
    Scheduled (taskCreate s name stackSize stack).2 := by
  unfold taskCreate
  split
  · exact scheduled
  rename_i task found
  have unused : (s.tasks task).state = .unused := by simpa using List.find?_some found
  dsimp only
  split
  · exact scheduled
  have counted : Scheduled { s with nextTid := Words.u32 (s.nextTid + 1) } :=
    scheduled.congr rfl rfl rfl rfl rfl (fun _ => rfl) fun _ => rfl
  refine counted.add ?_ ?_ _
  · rw [unused]
    exact fun ready => by cases ready
  · intro isCurrent
    obtain ⟨current, same, used, _⟩ := scheduled.current
    exact used (Option.some.inj (same.symm.trans isCurrent) ▸ unused)

theorem QueueSound.current_waits (sound : QueueSound s) {current : TaskRef}
    (isCurrent : s.currentTask = some current) (notIdle : s.idleTask ≠ some current) :
    (s.tasks current).state ≠ .ready := by
  obtain ⟨queue, sound⟩ := sound
  intro ready
  exact sound.current current ((sound.ready current).mpr ⟨ready, notIdle⟩) isCurrent

theorem taskUnblock_scheduled (scheduled : Scheduled s) {task : Option TaskRef}
    (keeps : KeepsQueue s (.taskUnblock task)) : Scheduled (taskUnblock s task) := by
  unfold taskUnblock
  split
  · exact scheduled
  split
  · exact scheduled
  rename_i task waits
  have blocked : (s.tasks task).state = .blocked := not_not.mp waits
  refine scheduled.add ?_ ?_ _
  · rw [blocked]
    exact fun ready => by cases ready
  · exact fun isCurrent => keeps task isCurrent rfl blocked

theorem taskUnblock_keeps (scheduled : Scheduled s) {task : Option TaskRef}
    (sound : QueueSound (taskUnblock s task)) : KeepsQueue s (.taskUnblock task) := by
  rintro current isCurrent rfl blocked
  obtain ⟨other, same, _, notIdle⟩ := scheduled.current
  cases Option.some.inj (isCurrent.symm.trans same)
  have woken : taskUnblock s (some current) = readyQueueAdd
      (s.setTask current { s.tasks current with blockReason := blockReasonNone }) current :=
    if_neg (not_not.mpr blocked)
  rw [woken] at sound
  have frame := readyQueueAdd_frame
    (s.setTask current { s.tasks current with blockReason := blockReasonNone }) current
  refine sound.current_waits (frame.current.trans isCurrent) ?_ ?_
  · rwa [frame.idle]
  · rw [readyQueueAdd_state, if_pos rfl]

/-- The loop of the tick: the sleepers whose time has come join the queue in the order of
the table. -/
theorem wakeSleepers (now : Nat) (sleepers : List TaskRef) (nodup : sleepers.Nodup)
    (linked : s.Queue queue) (fresh : ∀ task ∈ sleepers, Due s now task → task ∉ queue) :
    (sleepers.foldl (wakeSleeper now) s).Queue
        (queue ++ sleepers.filter fun task => Due s now task) ∧
      QueueFrame s (sleepers.foldl (wakeSleeper now) s) ∧
      ∀ task, ((sleepers.foldl (wakeSleeper now) s).tasks task).state =
        if task ∈ sleepers ∧ Due s now task then .ready else (s.tasks task).state := by
  induction sleepers generalizing s queue with
  | nil => exact ⟨by simpa using linked, QueueFrame.refl s, fun task => by simp⟩
  | cons first rest ih =>
      obtain ⟨absent, nodup⟩ := List.nodup_cons.mp nodup
      rw [List.foldl_cons]
      by_cases due : Due s now first
      · have woken : wakeSleeper now s first = readyQueueAdd s first := if_pos due
        have frame := readyQueueAdd_frame s first
        have later : ∀ task, task ≠ first → (Due (readyQueueAdd s first) now task ↔
            Due s now task) := fun task apart => by
          rw [Due, Due, frame.wakeTime, readyQueueAdd_state, if_neg apart]
        have others : ∀ task ∈ rest, task ≠ first := fun task inside =>
          ne_of_mem_of_not_mem inside absent
        have added := readyQueueAdd_queue linked (fresh first List.mem_cons_self due)
        obtain ⟨linked, frames, state⟩ := ih nodup added fun task inside dueLater => by
          have apart := others task inside
          have away := fresh task (List.mem_cons_of_mem _ inside) ((later task apart).mp dueLater)
          simpa [apart] using away
        have same : rest.filter (fun task => Due (readyQueueAdd s first) now task) =
            rest.filter fun task => Due s now task :=
          List.filter_congr fun task inside => by simp [later task (others task inside)]
        rw [woken]
        refine ⟨?_, frame.trans frames, fun task => ?_⟩
        · rw [same] at linked
          simpa [List.filter_cons, due] using linked
        · rw [state, readyQueueAdd_state]
          by_cases isFirst : task = first
          · subst isFirst
            simp [due]
          · simp [isFirst, later task isFirst]
      · have kept : wakeSleeper now s first = s := if_neg due
        obtain ⟨linked, frame, state⟩ := ih nodup linked fun task inside =>
          fresh task (List.mem_cons_of_mem _ inside)
        rw [kept]
        refine ⟨by simpa [List.filter_cons, due] using linked, frame, fun task => ?_⟩
        rw [state]
        by_cases same : task = first
        · subst same
          simp [due]
        · simp [same]

theorem Due.not_ready {now : Nat} {task : TaskRef} (due : Due s now task) :
    (s.tasks task).state ≠ .ready := by
  rw [due.1]
  exact fun ready => by cases ready

/-- The scheduler after the loop of an enabled tick: the current task is in the queue if it
was due, and in front of it if it woke alone. -/
structure Woken (s : Scheduler) (now : Nat) (woken : Scheduler) (queue : List TaskRef) : Prop where
  queued : Queued woken queue
  frame : QueueFrame s woken
  state : ∀ task, (woken.tasks task).state =
    if Due s now task then .ready else (s.tasks task).state
  inside : ∀ current, s.currentTask = some current → (current ∈ queue ↔ Due s now current)
  front : ∀ current, s.currentTask = some current → Due s now current →
    (woken.readyQueueHead = some current ↔
      s.readyQueueHead = none ∧ ∀ earlier < current, ¬ Due s now earlier)

theorem head_append_due {now : Nat} {current : TaskRef} (due : Due s now current)
    (absent : current ∉ queue) :
    (queue ++ (List.finRange maxTasks).filter fun task => Due s now task).head? = some current ↔
      queue.head? = none ∧ ∀ earlier < current, ¬ Due s now earlier := by
  cases queue with
  | nil =>
      rw [List.nil_append, List.head?_filter, ← Fin.find?_eq_find?_finRange,
        Fin.find?_eq_some_iff]
      simp [due]
  | cons first rest =>
      have apart : first ≠ current := fun same => absent (same ▸ List.mem_cons_self)
      simp [apart]

theorem wakeSleepers_woken (scheduled : Scheduled s) (now : Nat) :
    ∃ queue, Woken s now ((List.finRange maxTasks).foldl (wakeSleeper now) s) queue := by
  obtain ⟨queue, sound⟩ := scheduled.sound
  obtain ⟨linked, frame, state⟩ := wakeSleepers now (List.finRange maxTasks)
    (List.nodup_finRange maxTasks) sound.linked fun task _ due inside =>
      due.not_ready ((sound.ready task).mp inside).1
  generalize (List.finRange maxTasks).foldl (wakeSleeper now) s = woken at *
  have state : ∀ task, (woken.tasks task).state =
      if Due s now task then .ready else (s.tasks task).state := fun task => by
    rw [state task]
    by_cases due : Due s now task <;> simp [due]
  have absent : ∀ current, s.currentTask = some current → current ∉ queue :=
    fun current isCurrent inside => sound.current current inside isCurrent
  refine ⟨_, ⟨linked, fun task => ?_, fun task runs => ?_⟩, frame, state,
    fun current isCurrent => ?_, fun current isCurrent due => ?_⟩
  · rw [frame.idle, state, List.mem_append, sound.ready]
    by_cases due : Due s now task
    · have notIdle : s.idleTask ≠ some task := fun isIdle =>
        due.not_ready (scheduled.idle task isIdle)
      simp [due, notIdle]
    · simp [due]
  · rw [state] at runs
    rw [frame.current]
    split at runs
    · cases runs
    · exact sound.running task runs
  · simp [absent current isCurrent]
  · rw [linked.head, head_append_due due (absent current isCurrent), sound.linked.head]

/-- An enabled tick charges the current task, wakes the sleepers and may switch. -/
theorem schedulerTick_woken (scheduled : Scheduled s) {current : TaskRef}
    (isCurrent : s.currentTask = some current) (enabled : s.schedulerEnabled = true)
    (now : Nat) :
    ∃ woken queue, Woken s now woken queue ∧
      schedulerTick s now =
        if woken.readyQueueHead.isSome ∧ (s.tasks current).tid ≠ 0 then schedule woken
        else woken := by
  let charged := s.setTask current { s.tasks current with
    cpuTime := ((s.tasks current).cpuTime + 1) % 18446744073709551616 }
  have fields : ∀ task, (charged.tasks task).state = (s.tasks task).state ∧
      (charged.tasks task).next = (s.tasks task).next ∧
      (charged.tasks task).tid = (s.tasks task).tid ∧
      (charged.tasks task).wakeTime = (s.tasks task).wakeTime := by
    intro task
    by_cases same : task = current
    · subst same
      simp [charged, setTask_self]
    · simp [charged, setTask_other _ _ same]
  have charge : QueueFrame s charged :=
    ⟨rfl, rfl, rfl, rfl, fun task => (fields task).2.2.1, fun task => (fields task).2.2.2⟩
  have dues : ∀ task, Due charged now task ↔ Due s now task := fun task => by
    rw [Due, Due, (fields task).1, (fields task).2.2.2]
  have ready : Scheduled charged := scheduled.congr rfl rfl rfl rfl rfl
    (fun task => (fields task).1) fun task => (fields task).2.1
  have ticked : schedulerTick s now =
      let woken := (List.finRange maxTasks).foldl (wakeSleeper now) charged
      if woken.readyQueueHead.isSome ∧ (woken.tasks current).tid ≠ 0 then schedule woken
      else woken := by
    simp only [schedulerTick, isCurrent, enabled, Bool.not_true, Bool.false_eq_true, if_false]
    with_reducible rfl
  obtain ⟨queue, queued, frame, state, inside, front⟩ := wakeSleepers_woken ready now
  generalize (List.finRange maxTasks).foldl (wakeSleeper now) charged = woken at *
  refine ⟨woken, queue, ⟨queued, charge.trans frame, fun task => ?_, ?_, ?_⟩, ?_⟩
  · rw [state, (fields task).1]
    by_cases due : Due s now task <;> simp [due, dues task]
  · simpa only [dues, charge.current] using inside
  · have head : charged.readyQueueHead = s.readyQueueHead := rfl
    simpa only [dues, charge.current, head] using front
  · rw [ticked]
    dsimp only
    rw [frame.tid, charge.tid]

/-- A current task that is not due is not in the queue. -/
theorem Woken.scheduled {now : Nat} {woken : Scheduler} {queue : List TaskRef}
    (loop : Woken s now woken queue) (scheduled : Scheduled s)
    (waits : ∀ current, s.currentTask = some current → ¬ Due s now current) :
    Scheduled woken := by
  obtain ⟨current, isCurrent, used, notIdle⟩ := scheduled.current
  refine ⟨⟨queue, loop.queued, fun task inside same => ?_⟩,
    loop.frame.lock.trans scheduled.unlocked,
    ⟨current, loop.frame.current.trans isCurrent, ?_, ?_⟩, fun idle isIdle => ?_⟩
  · have isTask := loop.frame.current.symm.trans same
    exact waits task isTask ((loop.inside task isTask).mp inside)
  · rwa [loop.state, if_neg (waits current isCurrent)]
  · rwa [loop.frame.idle]
  · rw [loop.state]
    split
    · rfl
    · exact scheduled.idle idle (loop.frame.idle ▸ isIdle)

theorem schedulerTick_scheduled (scheduled : Scheduled s) {now : Nat}
    (keeps : KeepsQueue s (.schedulerTick now)) : Scheduled (schedulerTick s now) := by
  obtain ⟨current, isCurrent, used, notIdle⟩ := scheduled.current
  cases enabled : s.schedulerEnabled with
  | false => simpa [schedulerTick, isCurrent, enabled] using scheduled
  | true =>
      obtain ⟨woken, queue, loop, ticked⟩ := schedulerTick_woken scheduled isCurrent enabled now
      rw [ticked]
      by_cases due : Due s now current
      · -- The current task is in the queue, behind another one.
        obtain ⟨tid, others⟩ := keeps current isCurrent enabled due
        have inside := (loop.inside current isCurrent).mpr due
        have unlocked := loop.frame.lock.trans scheduled.unlocked
        have on := loop.frame.enabled.trans enabled
        have nonempty : woken.readyQueueHead.isSome = true := by
          rw [loop.queued.linked.head, Option.isSome_iff_ne_none, Ne, List.head?_eq_none_iff]
          exact List.ne_nil_of_mem inside
        have notFirst : woken.readyQueueHead ≠ some current := by
          rw [Ne, loop.front current isCurrent due]
          rintro ⟨empty, alone⟩
          rcases others with some | ⟨earlier, smaller, dueEarlier⟩
          · exact some empty
          · exact alone earlier smaller dueEarlier
        rw [if_pos ⟨nonempty, tid⟩]
        simp only [schedule, on, unlocked, Bool.not_true, Bool.or_self, Bool.false_eq_true,
          if_false]
        refine scheduleForce_scheduled loop.queued unlocked (loop.frame.current.trans isCurrent)
          (by rwa [loop.frame.idle]) notFirst (fun idle isIdle => ?_)
          fun empty => absurd empty (List.ne_nil_of_mem inside)
        rw [loop.state]
        split
        · rfl
        · exact scheduled.idle idle (loop.frame.idle ▸ isIdle)
      · have after := loop.scheduled scheduled fun task isTask dueTask => due (by
          cases Option.some.inj (isCurrent.symm.trans isTask)
          exact dueTask)
        split
        · exact after.schedule
        · exact after

theorem scheduleForce_self {current : TaskRef} {rest : List TaskRef}
    (linked : s.Queue (current :: rest)) (isCurrent : s.currentTask = some current) :
    QueueFrame s (scheduleForce s) ∧
      ∀ task, ((scheduleForce s).tasks task).state = (s.tasks task).state := by
  obtain ⟨popped, pop, _, frame, state⟩ := readyQueuePop_cons linked
  unfold scheduleForce
  split
  · exact ⟨QueueFrame.refl s, fun _ => rfl⟩
  · rw [pop]
    simp only [frame.current, isCurrent, if_true]
    exact ⟨frame, state⟩

/-- A current task that wakes and stays current is ready but cannot be queued. -/
theorem schedulerTick_keeps (scheduled : Scheduled s) {now : Nat}
    (sound : QueueSound (schedulerTick s now)) : KeepsQueue s (.schedulerTick now) := by
  intro current isCurrent enabled due
  obtain ⟨other, same, _, notIdle⟩ := scheduled.current
  cases Option.some.inj (isCurrent.symm.trans same)
  obtain ⟨woken, queue, loop, ticked⟩ := schedulerTick_woken scheduled isCurrent enabled now
  have currentWoken := loop.frame.current.trans isCurrent
  have stays : ∀ after, QueueFrame woken after →
      (after.tasks current).state = (woken.tasks current).state → ¬ QueueSound after := by
    intro after kept sameState soundAfter
    refine soundAfter.current_waits (kept.current.trans currentWoken) ?_ (sameState.trans ?_)
    · rwa [kept.idle, loop.frame.idle]
    · rw [loop.state, if_pos due]
  rw [ticked] at sound
  refine ⟨fun zero => ?_, ?_⟩
  · rw [if_neg fun both => both.2 zero] at sound
    exact stays woken (QueueFrame.refl woken) rfl sound
  · by_contra alone
    obtain ⟨empty, first⟩ := not_or.mp alone
    have front : woken.readyQueueHead = some current :=
      (loop.front current isCurrent due).mpr
        ⟨not_not.mp empty, fun earlier smaller dueEarlier => first ⟨earlier, smaller, dueEarlier⟩⟩
    have linked := loop.queued.linked
    obtain ⟨rest, isCons⟩ := List.head?_eq_some_iff.mp (linked.head.symm.trans front)
    rw [isCons] at linked
    obtain ⟨popped, sameState⟩ := scheduleForce_self linked currentWoken
    split at sound
    · unfold schedule at sound
      split at sound
      · exact stays woken (QueueFrame.refl woken) rfl sound
      · exact stays _ popped (sameState current) sound
    · exact stays woken (QueueFrame.refl woken) rfl sound

theorem call_scheduled (scheduled : Scheduled s) (call : SchedulerCall)
    (keeps : KeepsQueue s call) : Scheduled (s.call call) := by
  cases call with
  | taskCreate name stackSize stack => exact taskCreate_scheduled scheduled name stackSize stack
  | schedule => exact scheduled.schedule
  | schedulerTick now => exact schedulerTick_scheduled scheduled keeps
  | taskBlock reason => exact taskBlock_scheduled scheduled reason
  | taskUnblock task => exact taskUnblock_scheduled scheduled keeps
  | taskSleep now ms => exact taskSleep_scheduled scheduled now ms
  | taskExit => exact taskExit_scheduled scheduled
  | schedulerEnable => exact scheduled.congr rfl rfl rfl rfl rfl (fun _ => rfl) fun _ => rfl
  | schedulerDisable => exact scheduled.congr rfl rfl rfl rfl rfl (fun _ => rfl) fun _ => rfl

theorem call_keeps (scheduled : Scheduled s) (call : SchedulerCall)
    (sound : QueueSound (s.call call)) : KeepsQueue s call := by
  cases call with
  | schedulerTick now => exact schedulerTick_keeps scheduled sound
  | taskUnblock task => exact taskUnblock_keeps scheduled sound
  | _ => trivial

theorem allocTaskSlot_first (used : (s.tasks 0).state ≠ .unused)
    (free : (s.tasks 1).state = .unused) : allocTaskSlot s = some 1 := by
  rw [allocTaskSlot, ← Fin.find?_eq_find?_finRange, Fin.find?_eq_some_iff]
  refine ⟨by simpa using free, fun task earlier => ?_⟩
  have first : task = 0 := Fin.eq_of_val_eq (Nat.lt_one_iff.mp earlier)
  simpa [first] using used

theorem schedulerBoot_scheduled (stack : Nat) : Scheduled (schedulerBoot stack) := by
  unfold schedulerBoot schedulerInit taskCreate
  dsimp only
  rw [allocTaskSlot_first (by simp) (by simp [Task.zero])]
  by_cases failed : stack = 0
  · simp only [failed, if_true]
    refine ⟨⟨[], ⟨Holds.empty _, fun task => ?_, fun task => ?_⟩, fun task inside => ?_⟩, rfl,
      ⟨0, rfl, by simp, by simp⟩, fun idle isIdle => by cases isIdle⟩
    · by_cases first : task = 0 <;> simp [first, Task.zero]
    · by_cases first : task = 0 <;> simp [first, Task.zero]
    · cases inside
  · simp only [failed, if_false, readyQueueAdd, readyQueuePop, Scheduler.setTask, if_true]
    refine ⟨⟨[], ⟨Holds.empty _, fun task => ?_, fun task => ?_⟩, fun task inside => ?_⟩, rfl,
      ⟨0, rfl, by simp, by simp⟩, fun idle isIdle => by cases isIdle; simp⟩
    · by_cases idle : task = 1 <;> by_cases first : task = 0 <;>
        simp [idle, first, Task.zero, eq_comm]
    · by_cases idle : task = 1 <;> by_cases first : task = 0 <;> simp [idle, first, Task.zero]
    · cases inside

/-- The ready queue is sound after `scheduler_init`, and in a run from there after every
call exactly if every call meets the condition. -/
theorem scheduler_run_iff (stack : Nat) :
    QueueSound (schedulerBoot stack) ∧ ∀ calls : List SchedulerCall,
      (Along Scheduler.call (fun s call => QueueSound (s.call call)) (schedulerBoot stack) calls ↔
        Along Scheduler.call KeepsQueue (schedulerBoot stack) calls) := by
  have boot := schedulerBoot_scheduled stack
  refine ⟨boot.sound, fun calls => ?_⟩
  exact along_iff Scheduled QueueSound (fun _ scheduled => scheduled.sound)
    (fun _ call scheduled keeps => call_scheduled scheduled call keeps)
    (fun _ call scheduled sound => call_keeps scheduled call sound) boot calls

/-- The kernel task sleeps with nothing else to run and stays current; the tick that wakes
it puts it into the queue. -/
theorem scheduler_wakes_current :
    let s := (((schedulerBoot 0xD0000018).call .schedulerEnable).call (.taskSleep 0 10)).call
      (.schedulerTick 10)
    s.currentTask = some 0 ∧ s.readyQueueHead = some 0 ∧ ¬ QueueSound s := by
  intro s
  have current : s.currentTask = some 0 := by decide +kernel
  have head : s.readyQueueHead = some 0 := by decide +kernel
  refine ⟨current, head, ?_⟩
  rintro ⟨queue, sound⟩
  have queued := List.mem_of_mem_head? (sound.linked.head.symm.trans head)
  exact sound.current 0 queued current

end ZurichOS
