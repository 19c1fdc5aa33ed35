import ZurichOS.Words

/-!
The tasks and the ready queue of `kernel/sched/scheduler.c`.  A context switch is the
change of `current_task`: what runs next is the next call.
-/

namespace ZurichOS

abbrev maxTasks : Nat := 64
abbrev defaultStackSize : Nat := 4096
abbrev blockReasonNone : Nat := 0

inductive TaskState where
  | unused
  | running
  | ready
  | blocked
  | sleeping
  | zombie
deriving DecidableEq

/-- `task_t`, with pointers to tasks of a type of their own; 0 is a null address. -/
structure Task (Ref : Type) where
  tid : Nat
  pid : Nat
  name : String
  state : TaskState
  priority : Nat
  basePriority : Nat
  inheritedPriority : Nat
  blockReason : Nat
  waitingOn : Nat
  kernelStack : Nat
  kernelStackSize : Nat
  cpuTime : Nat
  wakeTime : Nat
  next : Option Ref

def Task.zero (Ref : Type) : Task Ref := ⟨0, 0, "", .unused, 0, 0, 0, 0, 0, 0, 0, 0, 0, none⟩

abbrev TaskRef := Fin maxTasks

structure Scheduler where
  tasks : TaskRef → Task TaskRef
  nextTid : Nat
  currentTask : Option TaskRef
  idleTask : Option TaskRef
  readyQueueHead : Option TaskRef
  readyQueueTail : Option TaskRef
  schedulerLock : Bool
  schedulerEnabled : Bool
  kernelEsp : Nat

def Scheduler.setTask (s : Scheduler) (task : TaskRef) (content : Task TaskRef) : Scheduler :=
  { s with tasks := fun other => if other = task then content else s.tasks other }

def readyQueueAdd (s : Scheduler) (task : TaskRef) : Scheduler :=
  let s := s.setTask task { s.tasks task with next := none, state := .ready }
  match s.readyQueueTail with
  | some last =>
      { s.setTask last { s.tasks last with next := some task } with readyQueueTail := some task }
  | none => { s with readyQueueHead := some task, readyQueueTail := some task }

def readyQueuePop (s : Scheduler) : Option TaskRef × Scheduler :=
  match s.readyQueueHead with
  | none => (none, s)
  | some task =>
      let s := { s with readyQueueHead := (s.tasks task).next }
      let s := if s.readyQueueHead.isNone then { s with readyQueueTail := none } else s
      (some task, s.setTask task { s.tasks task with next := none })

def allocTaskSlot (s : Scheduler) : Option TaskRef :=
  (List.finRange maxTasks).find? fun i => (s.tasks i).state = .unused

/-- `stack` is what `kmalloc` returns for the kernel stack. -/
def taskCreate (s : Scheduler) (name : String) (stackSize stack : Nat) :
    Option TaskRef × Scheduler :=
  match allocTaskSlot s with
  | none => (none, s)
  | some task =>
      let stackSize := if stackSize = 0 then defaultStackSize else stackSize
      if stack = 0 then (none, s)
      else
        let created : Task TaskRef :=
          { tid := s.nextTid
            pid := match s.currentTask with
              | some current => (s.tasks current).pid
              | none => 0
            name := String.ofList (name.toList.take 31)
            state := .ready
            priority := 10, basePriority := 10, inheritedPriority := 0
            blockReason := (s.tasks task).blockReason
            waitingOn := 0
            kernelStack := stack, kernelStackSize := stackSize
            cpuTime := 0, wakeTime := 0
            next := none }
        let s := { s with nextTid := Words.u32 (s.nextTid + 1) }
        (some task, readyQueueAdd (s.setTask task created) task)

def schedulerInit (s : Scheduler) (stack : Nat) : Scheduler :=
  let s := { s with
    tasks := fun task =>
      if task = 0 then { Task.zero TaskRef with name := "kernel", state := .running }
      else Task.zero TaskRef
    currentTask := some 0 }
  match taskCreate s "idle" defaultStackSize stack with
  | (none, s) => { s with idleTask := none }
  | (some idle, s) =>
      let s := { s with idleTask := some idle }
      let s := if s.readyQueueHead = some idle then (readyQueuePop s).2 else s
      s.setTask idle { s.tasks idle with state := .ready, priority := 255 }

def scheduleForce (s : Scheduler) : Scheduler :=
  if s.schedulerLock then s
  else
    match readyQueuePop s with
    | (none, s) => s
    | (some next, s) =>
        if s.currentTask = some next then s
        else
          let s := match s.currentTask with
            | some prev =>
                if (s.tasks prev).state = TaskState.running ∧ s.idleTask ≠ some prev then
                  readyQueueAdd s prev
                else s
            | none => s
          let s := { s with currentTask := some next }
          let s := s.setTask next { s.tasks next with state := .running }
          let task := s.tasks next
          if task.kernelStack ≠ 0 then
            { s with kernelEsp := Words.u32 (task.kernelStack + task.kernelStackSize) }
          else s

def schedule (s : Scheduler) : Scheduler :=
  if !s.schedulerEnabled || s.schedulerLock then s else scheduleForce s

/-- The body of the loop over all tasks in `scheduler_tick`. -/
def wakeSleeper (now : Nat) (s : Scheduler) (task : TaskRef) : Scheduler :=
  if (s.tasks task).state = .sleeping ∧ (s.tasks task).wakeTime ≤ now then readyQueueAdd s task
  else s

/-- `now` is the uptime in milliseconds. -/
def schedulerTick (s : Scheduler) (now : Nat) : Scheduler :=
  match s.currentTask with
  | none => s
  | some current =>
      if !s.schedulerEnabled then s
      else
        let running := s.tasks current
        let s := s.setTask current
          { running with cpuTime := (running.cpuTime + 1) % 18446744073709551616 }
        let s := (List.finRange maxTasks).foldl (wakeSleeper now) s
        if s.readyQueueHead.isSome ∧ (s.tasks current).tid ≠ 0 then schedule s else s

def taskBlock (s : Scheduler) (reason : Nat) : Scheduler :=
  match s.currentTask with
  | none => s
  | some current =>
      scheduleForce (s.setTask current
        { s.tasks current with state := .blocked, blockReason := reason })

def taskUnblock (s : Scheduler) (task : Option TaskRef) : Scheduler :=
  match task with
  | none => s
  | some task =>
      if (s.tasks task).state ≠ .blocked then s
      else readyQueueAdd
        (s.setTask task { s.tasks task with blockReason := blockReasonNone }) task

def taskSleep (s : Scheduler) (now ms : Nat) : Scheduler :=
  match s.currentTask with
  | none => s
  | some current =>
      schedule (s.setTask current { s.tasks current with
        wakeTime := (now + ms) % 18446744073709551616, state := .sleeping })

/-- The stack goes back to the heap, which the scheduler does not see. -/
def taskExit (s : Scheduler) : Scheduler :=
  match s.currentTask with
  | none => s
  | some current => scheduleForce (s.setTask current { s.tasks current with state := .zombie })

def taskSetPriority {Ref : Type} (task : Task Ref) (priority : Nat) : Task Ref :=
  { task with
    basePriority := priority
    priority := if 0 < task.inheritedPriority ∧ task.inheritedPriority < priority then
      task.inheritedPriority else priority }

def taskGetEffectivePriority {Ref : Type} (task : Task Ref) : Nat := task.priority

def taskBoostPriority {Ref : Type} (task : Task Ref) (priority : Nat) : Task Ref :=
  let task :=
    if task.inheritedPriority = 0 ∨ priority < task.inheritedPriority then
      { task with inheritedPriority := priority }
    else task
  if priority < task.priority then { task with priority } else task

def taskRestorePriority {Ref : Type} (task : Task Ref) : Task Ref :=
  { task with inheritedPriority := 0, priority := task.basePriority }

inductive SchedulerCall where
  | taskCreate (name : String) (stackSize stack : Nat)
  | schedule
  | schedulerTick (now : Nat)
  | taskBlock (reason : Nat)
  | taskUnblock (task : Option TaskRef)
  | taskSleep (now ms : Nat)
  | taskExit
  | schedulerEnable
  | schedulerDisable

def Scheduler.call (s : Scheduler) : SchedulerCall → Scheduler
  | .taskCreate name stackSize stack => (ZurichOS.taskCreate s name stackSize stack).2
  | .schedule => ZurichOS.schedule s
  | .schedulerTick now => ZurichOS.schedulerTick s now
  | .taskBlock reason => ZurichOS.taskBlock s reason
  | .taskUnblock task => ZurichOS.taskUnblock s task
  | .taskSleep now ms => ZurichOS.taskSleep s now ms
  | .taskExit => ZurichOS.taskExit s
  | .schedulerEnable => { s with schedulerEnabled := true }
  | .schedulerDisable => { s with schedulerEnabled := false }

/-- `scheduler_init` on zeroed statics. -/
def schedulerBoot (stack : Nat) : Scheduler :=
  schedulerInit
    { tasks := fun _ => Task.zero TaskRef, nextTid := 1, currentTask := none, idleTask := none
      readyQueueHead := none, readyQueueTail := none
      schedulerLock := false, schedulerEnabled := false, kernelEsp := 0 } stack

end ZurichOS
