import Mathlib.Algebra.BigOperators.Group.Finset.Basic
import Mathlib.Data.Fintype.Basic
import ZurichOS.Transitions

/-!
Tasks that share an object kept under a lock.  A task that cannot have the object now
enters a queue, blocks, and tests again when it is woken; a task that gives the object
back wakes tasks of the queues.  Each locked section, each block and each wake-up of a
task is one step; steps of different tasks interleave freely.  What the sections do to
the object is a parameter.
-/

namespace WaitProtocol

open Transitions

inductive Wake (Mode : Type) where
  | one (mode : Mode)
  | all (mode : Mode)

/-- The locked sections.  A release sees which queues have tasks. -/
structure Protocol (Task Mode Object : Type) where
  attempt : Object → Mode → Task → Bool × Object
  tryOnce : Object → Mode → Task → Bool × Object
  release : Object → Mode → Task → (Mode → Bool) → Object × List (Wake Mode)

inductive Place (Task Mode : Type) where
  | outside
  | test (mode : Mode) (woken : Bool)
  | enqueue (mode : Mode)
  | block (mode : Mode)
  | asleep (mode : Mode)
  | waking (wakes : List (Wake Mode))
  | unblock (target : Task) (wakes : List (Wake Mode))

/-- `holds` counts what a task has taken and not given back. -/
structure State (Task Mode Object : Type) where
  object : Object
  queue : Mode → List Task
  blocked : Task → Bool
  place : Task → Place Task Mode
  holds : Task → Mode → Nat

/-- Steps of a task.  Memory for the queue's entry may be missing, and a block returns at
once where no other task is ready. -/
inductive Event (Task Mode : Type) where
  | call (actor : Task) (mode : Mode)
  | test (actor : Task)
  | enqueue (actor : Task) (memory : Bool)
  | block (actor : Task) (others : Bool)
  | resume (actor : Task)
  | tryOnce (actor : Task) (mode : Mode)
  | release (actor : Task) (mode : Mode)
  | wake (actor : Task)
  | unblock (actor : Task)
  | leave (actor : Task)

variable {Task Mode Object : Type} [DecidableEq Task] [DecidableEq Mode]

def State.move (s : State Task Mode Object) (actor : Task) (place : Place Task Mode) :
    State Task Mode Object :=
  { s with place := Function.update s.place actor place }

def State.setBlocked (s : State Task Mode Object) (task : Task) (blocked : Bool) :
    State Task Mode Object :=
  { s with blocked := Function.update s.blocked task blocked }

def State.setQueue (s : State Task Mode Object) (mode : Mode) (queue : List Task) :
    State Task Mode Object :=
  { s with queue := Function.update s.queue mode queue }

def State.setHolds (s : State Task Mode Object) (task : Task) (mode : Mode) (count : Nat) :
    State Task Mode Object :=
  { s with holds := Function.update s.holds task (Function.update (s.holds task) mode count) }

def State.take (s : State Task Mode Object) (actor : Task) (mode : Mode) (object : Object) :
    State Task Mode Object :=
  { s with object }.setHolds actor mode (s.holds actor mode + 1)

def State.give (s : State Task Mode Object) (actor : Task) (mode : Mode) (object : Object) :
    State Task Mode Object :=
  { s with object }.setHolds actor mode (s.holds actor mode - 1)

def State.waiting (s : State Task Mode Object) (mode : Mode) : Bool := !(s.queue mode).isEmpty

inductive Step (protocol : Protocol Task Mode Object) :
    State Task Mode Object → Event Task Mode → State Task Mode Object → Prop
  | call {s} (actor mode) : s.place actor = .outside →
      Step protocol s (.call actor mode) (s.move actor (.test mode false))
  | acquired {s mode woken object} (actor) : s.place actor = .test mode woken →
      protocol.attempt s.object mode actor = (true, object) →
      Step protocol s (.test actor) ((s.take actor mode object).move actor .outside)
  | refused {s mode woken object} (actor) : s.place actor = .test mode woken →
      protocol.attempt s.object mode actor = (false, object) →
      Step protocol s (.test actor) ({ s with object }.move actor (.enqueue mode))
  | queued {s mode} (actor) : s.place actor = .enqueue mode →
      Step protocol s (.enqueue actor true)
        ((s.setQueue mode (s.queue mode ++ [actor])).move actor (.block mode))
  | unqueued {s mode} (actor) : s.place actor = .enqueue mode →
      Step protocol s (.enqueue actor false) (s.move actor (.test mode false))
  | slept {s mode} (actor) : s.place actor = .block mode →
      Step protocol s (.block actor true) ((s.setBlocked actor true).move actor (.asleep mode))
  | returned {s mode} (actor) : s.place actor = .block mode →
      Step protocol s (.block actor false)
        ((s.setBlocked actor true).move actor (.test mode false))
  | resumed {s mode} (actor) : s.place actor = .asleep mode → s.blocked actor = false →
      Step protocol s (.resume actor) (s.move actor (.test mode true))
  | tried {s object} (actor mode) : s.place actor = .outside →
      protocol.tryOnce s.object mode actor = (true, object) →
      Step protocol s (.tryOnce actor mode) (s.take actor mode object)
  | failed {s object} (actor mode) : s.place actor = .outside →
      protocol.tryOnce s.object mode actor = (false, object) →
      Step protocol s (.tryOnce actor mode) { s with object }
  | released {s object wakes} (actor mode) : s.place actor = .outside →
      protocol.release s.object mode actor s.waiting = (object, wakes) →
      Step protocol s (.release actor mode) ((s.give actor mode object).move actor (.waking wakes))
  | wokeFirst {s mode wakes target rest} (actor) : s.place actor = .waking (.one mode :: wakes) →
      s.queue mode = target :: rest →
      Step protocol s (.wake actor) ((s.setQueue mode rest).move actor (.unblock target wakes))
  | wokeNone {s mode wakes} (actor) : s.place actor = .waking (.one mode :: wakes) →
      s.queue mode = [] →
      Step protocol s (.wake actor) (s.move actor (.waking wakes))
  | wokeAll {s mode wakes} (actor) : s.place actor = .waking (.all mode :: wakes) →
      Step protocol s (.wake actor)
        (({ s with blocked := fun task => if task ∈ s.queue mode then false else s.blocked task
          }.setQueue mode []).move actor (.waking wakes))
  | unblocked {s target wakes} (actor) : s.place actor = .unblock target wakes →
      Step protocol s (.unblock actor)
        ((s.setBlocked target false).move actor (.waking wakes))
  | left {s} (actor) : s.place actor = .waking [] →
      Step protocol s (.leave actor) (s.move actor .outside)

structure Fresh (s : State Task Mode Object) : Prop where
  queue : ∀ mode, s.queue mode = []
  blocked : ∀ task, s.blocked task = false
  place : ∀ task, s.place task = .outside
  holds : ∀ task mode, s.holds task mode = 0

def HolderReleases (s : State Task Mode Object) : Event Task Mode → Prop
  | .release actor mode => 0 < s.holds actor mode
  | _ => True

@[simp] theorem setHolds_self (s : State Task Mode Object) (task : Task) (mode : Mode)
    (count : Nat) : (s.setHolds task mode count).holds task mode = count := by
  simp [State.setHolds]

theorem setHolds_other (s : State Task Mode Object) {task other : Task} {mode : Mode}
    (count : Nat) (apart : other ≠ task) (own : Mode) :
    (s.setHolds task mode count).holds other own = s.holds other own := by
  simp [State.setHolds, apart]

theorem setHolds_mode (s : State Task Mode Object) (task : Task) {mode own : Mode}
    (count : Nat) (apart : own ≠ mode) (other : Task) :
    (s.setHolds task mode count).holds other own = s.holds other own := by
  by_cases same : other = task
  · subst same
    simp [State.setHolds, apart]
  · exact setHolds_other s count same own

section Counting

variable [Fintype Task]

def total (weight : Task → Nat) : Nat := ∑ task, weight task

theorem total_change (before after : Task → Nat) (actor : Task)
    (same : ∀ task, task ≠ actor → after task = before task) :
    total after + before actor = total before + after actor := by
  have others : ∑ task ∈ Finset.univ.erase actor, after task =
      ∑ task ∈ Finset.univ.erase actor, before task :=
    Finset.sum_congr rfl fun task inside => same task (Finset.ne_of_mem_erase inside)
  have splitAfter := Finset.add_sum_erase Finset.univ after (Finset.mem_univ actor)
  have splitBefore := Finset.add_sum_erase Finset.univ before (Finset.mem_univ actor)
  simp only [total]
  omega

theorem le_total (weight : Task → Nat) (task : Task) : weight task ≤ total weight := by
  have split := Finset.add_sum_erase Finset.univ weight (Finset.mem_univ task)
  simp only [total]
  omega

theorem pair_le_total (weight : Task → Nat) {task other : Task} (apart : other ≠ task) :
    weight task + weight other ≤ total weight := by
  have split := Finset.add_sum_erase Finset.univ weight (Finset.mem_univ task)
  have inside : other ∈ Finset.univ.erase task :=
    Finset.mem_erase.mpr ⟨apart, Finset.mem_univ other⟩
  have rest := Finset.add_sum_erase _ weight inside
  simp only [total]
  omega

omit [DecidableEq Task] in
theorem exists_of_total_pos {weight : Task → Nat} (positive : 0 < total weight) :
    ∃ task, 0 < weight task := by
  by_contra none
  have zero : total weight = 0 := Finset.sum_eq_zero fun task _ => by
    by_contra some
    exact none ⟨task, Nat.pos_of_ne_zero some⟩
  omega

def State.held (s : State Task Mode Object) (mode : Mode) : Nat :=
  total fun task => s.holds task mode

theorem setHolds_held (s : State Task Mode Object) (task : Task) (mode : Mode) (count : Nat) :
    (s.setHolds task mode count).held mode + s.holds task mode = s.held mode + count := by
  have change := total_change (fun other => s.holds other mode)
    (fun other => (s.setHolds task mode count).holds other mode) task
    fun other apart => setHolds_other s count apart mode
  simpa [State.held] using change

theorem setHolds_held_mode (s : State Task Mode Object) (task : Task) {mode own : Mode}
    (count : Nat) (apart : own ≠ mode) : (s.setHolds task mode count).held own = s.held own :=
  congrArg total (funext (setHolds_mode s task count apart))

theorem take_held (s : State Task Mode Object) (task : Task) (mode : Mode) (object : Object) :
    (s.take task mode object).held mode = s.held mode + 1 := by
  have change := setHolds_held { s with object } task mode (s.holds task mode + 1)
  have same : State.held { s with object } mode = s.held mode := rfl
  rw [State.take]
  dsimp only at change
  omega

theorem give_held (s : State Task Mode Object) {task : Task} {mode : Mode}
    (holds : 0 < s.holds task mode) (object : Object) :
    (s.give task mode object).held mode + 1 = s.held mode := by
  have change := setHolds_held { s with object } task mode (s.holds task mode - 1)
  have same : State.held { s with object } mode = s.held mode := rfl
  rw [State.give]
  dsimp only at change
  omega

end Counting

end WaitProtocol
