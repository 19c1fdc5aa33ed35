import ZurichOS.SchedulerCore
import ZurichOS.WaitProtocol

/-!
The locked sections of `kernel/sync/mutex.c`, `semaphore.c` and `rwlock.c`.  What lies
between them is `waitqueue_wait`, `waitqueue_wake_one` and `waitqueue_wake_all` of
`waitqueue.c`, with the queues as lists of their tasks: the steps of a waiting protocol.
-/

namespace ZurichOS

open WaitProtocol

variable {Ref : Type} [DecidableEq Ref]

/-- `mutex_t` without its locks and its queue. -/
structure Mutex (Ref : Type) where
  locked : Nat
  owner : Nat
  ownerTask : Option Ref

/-- A mutex and the tasks, whose priorities and `waiting_on` its sections write. -/
structure MutexObject (Ref : Type) where
  mutex : Mutex Ref
  tasks : Ref → Task Ref

def MutexObject.setTask (o : MutexObject Ref) (task : Ref) (content : Task Ref) :
    MutexObject Ref :=
  { o with tasks := Function.update o.tasks task content }

def mutexInit : Mutex Ref := ⟨0, 0, none⟩

def currentTid (o : MutexObject Ref) (current : Option Ref) : Nat :=
  match current with
  | some task => (o.tasks task).tid
  | none => 0

/-- The section of `mutex_lock`; `address` is where the mutex lies. -/
def mutexLockSection (address : Nat) (o : MutexObject Ref) (current : Option Ref) :
    Bool × MutexObject Ref :=
  let tid := currentTid o current
  if o.mutex.locked = 0 then
    let o := { o with mutex := { locked := 1, owner := tid, ownerTask := current } }
    match current with
    | some task => (true, o.setTask task { o.tasks task with waitingOn := 0 })
    | none => (true, o)
  else
    match current, o.mutex.ownerTask with
    | some task, some owner =>
        let currentPrio := taskGetEffectivePriority (o.tasks task)
        let ownerPrio := taskGetEffectivePriority (o.tasks owner)
        let o :=
          if currentPrio < ownerPrio then
            o.setTask owner (taskBoostPriority (o.tasks owner) currentPrio)
          else o
        (false, o.setTask task { o.tasks task with waitingOn := address })
    | _, _ => (false, o)

def mutexUnlockSection (o : MutexObject Ref) : MutexObject Ref :=
  let owner := o.mutex.ownerTask
  let o := { o with mutex := { locked := 0, owner := 0, ownerTask := none } }
  match owner with
  | some task => o.setTask task (taskRestorePriority (o.tasks task))
  | none => o

def mutexTrylock (o : MutexObject Ref) (current : Option Ref) : Bool × MutexObject Ref :=
  let tid := currentTid o current
  if o.mutex.locked = 0 then
    (true, { o with mutex := { locked := 1, owner := tid, ownerTask := current } })
  else (false, o)

def mutexProtocol (address : Nat) : Protocol Ref Unit (MutexObject Ref) where
  attempt o _ task := mutexLockSection address o (some task)
  tryOnce o _ task := mutexTrylock o (some task)
  release o _ _ _ := (mutexUnlockSection o, [.one ()])

/-- `semaphore_t` without its locks and its queue; `count` is an `int32_t`. -/
structure Semaphore where
  count : BitVec 32

def semaphoreInit (count : BitVec 32) : Semaphore := { count }

def semaphoreWaitSection (sem : Semaphore) : Bool × Semaphore :=
  if sem.count.toInt > 0 then (true, { count := sem.count - 1 }) else (false, sem)

def semaphoreTrywait (sem : Semaphore) : Bool × Semaphore :=
  if sem.count.toInt > 0 then (true, { count := sem.count - 1 }) else (false, sem)

def semaphoreSignalSection (sem : Semaphore) : Semaphore :=
  { count := sem.count + 1 }

def semaphoreProtocol : Protocol Ref Unit Semaphore where
  attempt sem _ _ := semaphoreWaitSection sem
  tryOnce sem _ _ := semaphoreTrywait sem
  release sem _ _ _ := (semaphoreSignalSection sem, [.one ()])

inductive RwMode where
  | read
  | write
deriving DecidableEq

/-- `rwlock_t` without its locks and its queues; its fields are of type `int32_t`. -/
structure Rwlock where
  readers : BitVec 32
  writer : BitVec 32
  writerWaiting : BitVec 32

def rwlockInit : Rwlock := ⟨0, 0, 0⟩

def rwlockReadLockSection (rw : Rwlock) : Bool × Rwlock :=
  if rw.writer = 0 ∧ rw.writerWaiting = 0 then
    (true, { rw with readers := rw.readers + 1 })
  else (false, rw)

def rwlockReadUnlockSection (rw : Rwlock) : Rwlock × List (Wake RwMode) :=
  let rw := { rw with readers := rw.readers - 1 }
  if rw.readers = 0 ∧ rw.writerWaiting ≠ 0 then (rw, [.one .write]) else (rw, [])

def rwlockWriteLockSection (rw : Rwlock) : Bool × Rwlock :=
  if rw.writer = 0 ∧ rw.readers = 0 then (true, { rw with writer := 1, writerWaiting := 0 })
  else (false, { rw with writerWaiting := 1 })

def rwlockWriteUnlockSection (rw : Rwlock) (waiting : RwMode → Bool) :
    Rwlock × List (Wake RwMode) :=
  let rw := { rw with writer := 0 }
  let hasWriteWaiters := waiting .write
  let hasReadWaiters := waiting .read
  (rw, (if hasReadWaiters then [.all .read] else []) ++
    if hasWriteWaiters && !hasReadWaiters then [.one .write] else [])

def rwlockTryReadLock (rw : Rwlock) : Bool × Rwlock :=
  if rw.writer = 0 ∧ rw.writerWaiting = 0 then
    (true, { rw with readers := rw.readers + 1 })
  else (false, rw)

def rwlockTryWriteLock (rw : Rwlock) : Bool × Rwlock :=
  if rw.writer = 0 ∧ rw.readers = 0 then (true, { rw with writer := 1 }) else (false, rw)

def rwlockProtocol : Protocol Ref RwMode Rwlock where
  attempt rw mode _ :=
    match mode with
    | .read => rwlockReadLockSection rw
    | .write => rwlockWriteLockSection rw
  tryOnce rw mode _ :=
    match mode with
    | .read => rwlockTryReadLock rw
    | .write => rwlockTryWriteLock rw
  release rw mode _ waiting :=
    match mode with
    | .read => rwlockReadUnlockSection rw
    | .write => rwlockWriteUnlockSection rw waiting

end ZurichOS
