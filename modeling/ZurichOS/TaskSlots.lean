import Mathlib.Data.Fintype.Card
import Mathlib.Data.Finset.Card
import ZurichOS.Blocking

set_option linter.all false

/-!
The slots of the task table.  `task_exit` leaves its slot a zombie and nothing else gives a slot
back, so each slot serves one task.
-/

namespace ZurichOS

open Transitions

def Used (s : Scheduler) (task : TaskRef) : Prop := (s.tasks task).state ≠ .unused

instance (s : Scheduler) : DecidablePred (Used s) := fun _ => inferInstanceAs (Decidable (_ ≠ _))

/-- Nothing leads to a slot that is not used. -/
structure LinksUsed (s : Scheduler) : Prop where
  head : ∀ task, s.readyQueueHead = some task → Used s task
  tail : ∀ task, s.readyQueueTail = some task → Used s task
  current : ∃ task, s.currentTask = some task ∧ Used s task
  next : ∀ task, Used s task → ∀ other, (s.tasks task).next = some other → Used s other

structure SameSlots (s after : Scheduler) : Prop where
  linked : LinksUsed after
  used : ∀ task, Used after task ↔ Used s task

def Scheduler.usedSlots (s : Scheduler) : Finset TaskRef := Finset.univ.filter (Used s)

def Scheduler.alive (s : Scheduler) : Finset TaskRef :=
  Finset.univ.filter fun task => (s.tasks task).state ≠ .unused ∧ (s.tasks task).state ≠ .zombie

def SchedulerCall.creates : SchedulerCall → Bool
  | .taskCreate _ _ _ => true
  | _ => false

def SchedulerCall.StackGiven : SchedulerCall → Prop
  | .taskCreate _ _ stack => stack ≠ 0
  | _ => True

def FindsSlot (s : Scheduler) : SchedulerCall → Prop
  | .taskCreate name stackSize stack => (taskCreate s name stackSize stack).1 ≠ none
  | _ => True

section Slots

variable {s : Scheduler} {task : TaskRef}

theorem LinksUsed.refl (linked : LinksUsed s) : SameSlots s s := ⟨linked, fun _ => Iff.rfl⟩

theorem LinksUsed.current_used (linked : LinksUsed s) (isCurrent : s.currentTask = some task) :
    Used s task := by
  obtain ⟨current, same, used⟩ := linked.current
  exact Option.some.inj (same.symm.trans isCurrent) ▸ used

theorem SameSlots.trans {middle after : Scheduler} (first : SameSlots s middle)
    (second : SameSlots middle after) : SameSlots s after :=
  ⟨second.linked, fun task => (second.used task).trans (first.used task)⟩

theorem SameSlots.of {after : Scheduler} (used : ∀ task, Used after task ↔ Used s task)
    (head : ∀ task, after.readyQueueHead = some task → Used s task)
    (tail : ∀ task, after.readyQueueTail = some task → Used s task)
    (current : ∃ task, after.currentTask = some task ∧ Used s task)
    (next : ∀ task, Used s task → ∀ other, (after.tasks task).next = some other → Used s other) :
    SameSlots s after :=
  ⟨⟨fun task isHead => (used task).mpr (head task isHead),
    fun task isTail => (used task).mpr (tail task isTail),
    current.imp fun task both => ⟨both.1, (used task).mpr both.2⟩,
    fun task taskUsed other isNext =>
      (used other).mpr (next task ((used task).mp taskUsed) other isNext)⟩, used⟩

theorem LinksUsed.setTask (linked : LinksUsed s) (used : Used s task) (content : Task TaskRef)
    (kept : content.state ≠ .unused) (next : content.next = (s.tasks task).next) :
    SameSlots s (s.setTask task content) := by
  refine .of (fun other => ?_) linked.head linked.tail linked.current fun other otherUsed third => ?_
  · by_cases own : other = task
    · subst own
      rw [Used, setTask_self]
      exact iff_of_true kept used
    · rw [Used, setTask_other _ _ own]
      rfl
  · by_cases own : other = task
    · subst own
      rw [setTask_self, next]
      exact linked.next other otherUsed third
    · rw [setTask_other _ _ own]
      exact linked.next other otherUsed third

theorem readyQueueAdd_ends (s : Scheduler) (task : TaskRef) :
    (readyQueueAdd s task).readyQueueTail = some task ∧
      ((readyQueueAdd s task).readyQueueHead = s.readyQueueHead ∨
        (readyQueueAdd s task).readyQueueHead = some task) := by
  unfold readyQueueAdd
  dsimp only
  split
  · exact ⟨rfl, .inl rfl⟩
  · exact ⟨rfl, .inr rfl⟩

theorem LinksUsed.add (linked : LinksUsed s) (used : Used s task) :
    SameSlots s (readyQueueAdd s task) := by
  obtain ⟨tail, head⟩ := readyQueueAdd_ends s task
  refine .of (fun other => ?_) (fun other isHead => ?_) (fun other isTail => ?_)
    ((readyQueueAdd_frame s task).current ▸ linked.current) fun other otherUsed third isNext => ?_
  · rw [Used, readyQueueAdd_state]
    split
    · rename_i own
      exact iff_of_true (by simp) (own ▸ used)
    · rfl
  · rcases head with same | new
    · exact linked.head other (same ▸ isHead)
    · cases Option.some.inj (new.symm.trans isHead)
      exact used
  · cases Option.some.inj (tail.symm.trans isTail)
    exact used
  · rw [readyQueueAdd_next] at isNext
    split at isNext
    · cases isNext
      exact used
    · split at isNext
      · cases isNext
      · exact linked.next other otherUsed third isNext

theorem LinksUsed.pop (linked : LinksUsed s) {popped : Scheduler} {first : TaskRef}
    (pop : readyQueuePop s = (some first, popped)) :
    SameSlots s popped ∧ Used s first ∧ popped.currentTask = s.currentTask := by
  unfold readyQueuePop at pop
  split at pop
  · cases pop
  · rename_i task head
    have used := linked.head task head
    obtain ⟨rfl, headEq, tail, current, links⟩ : task = first ∧
        popped.readyQueueHead = (s.tasks task).next ∧
        (popped.readyQueueTail = s.readyQueueTail ∨ popped.readyQueueTail = none) ∧
        popped.currentTask = s.currentTask ∧ ∀ other, (popped.tasks other).state =
          (s.tasks other).state ∧ (popped.tasks other).next =
            if other = task then none else (s.tasks other).next := by
      cases pop
      refine ⟨rfl, ?_, ?_, ?_, fun other => ?_⟩ <;> split <;> simp [Scheduler.setTask] <;>
        split <;> simp [*]
    refine ⟨.of (fun other => ?_) (fun other isHead => ?_) (fun other isTail => ?_)
      (current ▸ linked.current) fun other otherUsed third isNext => ?_, used, current⟩
    · rw [Used, (links other).1]
      rfl
    · exact linked.next task used other (headEq ▸ isHead)
    · rcases tail with same | none
      · exact linked.tail other (same ▸ isTail)
      · cases none.symm.trans isTail
    · rw [(links other).2] at isNext
      split at isNext
      · cases isNext
      · exact linked.next other otherUsed third isNext

theorem Dispatched.slots {next : TaskRef} {after : Scheduler} (dispatched : Dispatched s next after)
    (linked : LinksUsed s) (used : Used s next) : SameSlots s after := by
  refine .of (fun other => ?_) (dispatched.head ▸ linked.head) (dispatched.tail ▸ linked.tail)
    ⟨next, dispatched.current, used⟩ fun other otherUsed third isNext => ?_
  · rw [Used, dispatched.tasks]
    split
    · rename_i own
      exact iff_of_true (by simp) (own ▸ used)
    · rfl
  · rw [dispatched.tasks] at isNext
    split at isNext
    · exact linked.next next used third isNext
    · exact linked.next other otherUsed third isNext

theorem LinksUsed.force (linked : LinksUsed s) : SameSlots s (scheduleForce s) := by
  obtain ⟨current, isCurrent, _⟩ := linked.current
  cases locked : s.schedulerLock with
  | true =>
      rw [scheduleForce, if_pos locked]
      exact linked.refl
  | false =>
      rcases pop : readyQueuePop s with ⟨first, popped⟩
      cases first with
      | none =>
          have head : s.readyQueueHead = none := by
            unfold readyQueuePop at pop
            split at pop
            · assumption
            · cases pop
          rw [scheduleForce_idle head]
          exact linked.refl
      | some next =>
          obtain ⟨taken, used, same⟩ := linked.pop pop
          have poppedCurrent := same.trans isCurrent
          by_cases apart : current = next
          · have stays : scheduleForce s = popped := by
              simp [scheduleForce, locked, pop, poppedCurrent, apart]
            rw [stays]
            exact taken
          · have dispatched := scheduleForce_dispatched locked pop poppedCurrent apart
            obtain ⟨_, isTask, currentUsed⟩ := taken.linked.current
            cases Option.some.inj (poppedCurrent.symm.trans isTask)
            have nextUsed := (taken.used next).mpr used
            split at dispatched
            · have queued := taken.linked.add currentUsed
              exact (taken.trans queued).trans
                (dispatched.slots queued.linked ((queued.used next).mpr nextUsed))
            · exact taken.trans (dispatched.slots taken.linked nextUsed)

theorem LinksUsed.schedule (linked : LinksUsed s) : SameSlots s (ZurichOS.schedule s) := by
  unfold ZurichOS.schedule
  split
  · exact linked.refl
  · exact linked.force

theorem LinksUsed.tick (linked : LinksUsed s) (now : Nat) :
    SameSlots s (schedulerTick s now) := by
  unfold schedulerTick
  split
  · exact linked.refl
  rename_i current isCurrent
  split
  · exact linked.refl
  have used := linked.current_used isCurrent
  have charged := linked.setTask used { s.tasks current with
    cpuTime := ((s.tasks current).cpuTime + 1) % 18446744073709551616 } used rfl
  have woken := List.foldlRecOn (List.finRange maxTasks) (wakeSleeper now) charged
    fun middle same task _ => by
      unfold wakeSleeper
      split
      · rename_i due
        exact same.trans (same.linked.add (by simp [Used, due.1]))
      · exact same
  dsimp only
  split
  · exact woken.trans woken.linked.schedule
  · exact woken

/-- No call but `task_create` takes a slot, and none gives one back. -/
theorem LinksUsed.call (linked : LinksUsed s) {call : SchedulerCall} (other : call.creates = false) :
    SameSlots s (s.call call) := by
  cases call with
  | taskCreate => cases other
  | schedule => exact linked.schedule
  | schedulerTick now => exact linked.tick now
  | taskBlock reason =>
      simp only [Scheduler.call, taskBlock]
      split
      · exact linked.refl
      · rename_i current isCurrent
        have marked := linked.setTask (linked.current_used isCurrent)
          { s.tasks current with state := .blocked, blockReason := reason } (by simp) rfl
        exact marked.trans marked.linked.force
  | taskUnblock task =>
      simp only [Scheduler.call, taskUnblock]
      split
      · exact linked.refl
      split
      · exact linked.refl
      · rename_i task waits
        have used : Used s task := by simp [Used, not_not.mp waits]
        have cleared := linked.setTask used
          { s.tasks task with blockReason := blockReasonNone } used rfl
        exact cleared.trans (cleared.linked.add ((cleared.used task).mpr used))
  | taskSleep now ms =>
      simp only [Scheduler.call, taskSleep]
      split
      · exact linked.refl
      · rename_i current isCurrent
        have marked := linked.setTask (linked.current_used isCurrent) { s.tasks current with
          wakeTime := (now + ms) % 18446744073709551616, state := .sleeping } (by simp) rfl
        exact marked.trans marked.linked.schedule
  | taskExit =>
      simp only [Scheduler.call, taskExit]
      split
      · exact linked.refl
      · rename_i current isCurrent
        have marked := linked.setTask (linked.current_used isCurrent)
          { s.tasks current with state := .zombie } (by simp) rfl
        exact marked.trans marked.linked.force
  | schedulerEnable => exact .of (fun _ => Iff.rfl) linked.head linked.tail linked.current linked.next
  | schedulerDisable => exact .of (fun _ => Iff.rfl) linked.head linked.tail linked.current linked.next

theorem allocTaskSlot_none : allocTaskSlot s = none ↔ ∀ task, Used s task := by
  simp [allocTaskSlot, Used]

theorem allocTaskSlot_some (found : allocTaskSlot s = some task) : ¬ Used s task := by
  simpa [Used] using List.find?_some found

/-- With a stack for it, the task gets the first slot that is not used, if there is one. -/
theorem taskCreate_cases (s : Scheduler) (name : String) (stackSize : Nat) {stack : Nat}
    (given : stack ≠ 0) :
    (allocTaskSlot s = none ∧ (taskCreate s name stackSize stack).1 = none ∧
      (taskCreate s name stackSize stack).2 = s) ∨
    ∃ task content, allocTaskSlot s = some task ∧ content.next = none ∧
      (taskCreate s name stackSize stack).1 = some task ∧
      (taskCreate s name stackSize stack).2 = readyQueueAdd
        ({ s with nextTid := Words.u32 (s.nextTid + 1) }.setTask task content) task := by
  unfold taskCreate
  cases found : allocTaskSlot s with
  | none => exact .inl ⟨rfl, rfl, rfl⟩
  | some task =>
      simp only [if_neg given]
      exact .inr ⟨task, _, rfl, rfl, rfl, rfl⟩

theorem taskCreate_state {name : String} {stackSize stack : Nat}
    (made : (taskCreate s name stackSize stack).1 = some task) (given : stack ≠ 0)
    (other : TaskRef) : ((taskCreate s name stackSize stack).2.tasks other).state =
      if other = task then .ready else (s.tasks other).state := by
  rcases taskCreate_cases s name stackSize given with ⟨_, none, _⟩ |
    ⟨task, content, _, _, some, after⟩
  · cases none.symm.trans made
  · cases Option.some.inj (some.symm.trans made)
    rw [after, readyQueueAdd_state]
    split
    · rfl
    · rename_i apart
      rw [setTask_other _ _ apart]

theorem LinksUsed.create (linked : LinksUsed s) {name : String} {stackSize stack : Nat}
    (made : (taskCreate s name stackSize stack).1 = some task) (given : stack ≠ 0) :
    LinksUsed (taskCreate s name stackSize stack).2 ∧ ¬ Used s task ∧
      ∀ other, Used (taskCreate s name stackSize stack).2 other ↔ other = task ∨ Used s other := by
  have state := taskCreate_state made given
  rcases taskCreate_cases s name stackSize given with ⟨_, none, _⟩ |
    ⟨task, content, found, alone, some, after⟩
  · cases none.symm.trans made
  cases Option.some.inj (some.symm.trans made)
  have used : ∀ other, Used (taskCreate s name stackSize stack).2 other ↔
      other = task ∨ Used s other := by
    intro other
    rw [Used, state]
    by_cases own : other = task
    · simp [own]
    · simp [own, Used]
  have old : ∀ other, Used s other → Used (taskCreate s name stackSize stack).2 other :=
    fun other otherUsed => (used other).mpr (.inr otherUsed)
  have new := (used task).mpr (.inl rfl)
  rw [after] at used old new ⊢
  obtain ⟨tail, head⟩ := readyQueueAdd_ends
    ({ s with nextTid := Words.u32 (s.nextTid + 1) }.setTask task content) task
  refine ⟨⟨fun other isHead => ?_, fun other isTail => ?_, ?_, fun other otherUsed third isNext =>
    ?_⟩, allocTaskSlot_some found, used⟩
  · rcases head with same | first
    · exact old other (linked.head other (same.symm.trans isHead))
    · exact Option.some.inj (first.symm.trans isHead) ▸ new
  · exact Option.some.inj (tail.symm.trans isTail) ▸ new
  · obtain ⟨current, isCurrent, currentUsed⟩ := linked.current
    exact ⟨current, (readyQueueAdd_frame _ _).current.trans isCurrent, old current currentUsed⟩
  · rw [readyQueueAdd_next] at isNext
    split at isNext
    · exact Option.some.inj isNext ▸ new
    · split at isNext
      · cases isNext
      · rename_i apart
        rw [setTask_other _ _ apart] at isNext
        exact old third (linked.next other (((used other).mp otherUsed).resolve_left apart)
          third isNext)

theorem SameSlots.usedSlots {after : Scheduler} (same : SameSlots s after) :
    after.usedSlots = s.usedSlots := by
  ext task
  simp [Scheduler.usedSlots, same.used]

theorem usedSlots_full {name : String} {stackSize stack : Nat} (given : stack ≠ 0)
    (none : (taskCreate s name stackSize stack).1 = none) : s.usedSlots.card = maxTasks := by
  have full : ∀ task, Used s task := by
    rcases taskCreate_cases s name stackSize given with ⟨full, _⟩ | ⟨_, _, _, _, some, _⟩
    · exact allocTaskSlot_none.mp full
    · cases none.symm.trans some
  have all : s.usedSlots = Finset.univ := by
    simp [Scheduler.usedSlots, full]
  rw [all, Finset.card_univ, Fintype.card_fin]

theorem LinksUsed.usedSlots_create (linked : LinksUsed s) {name : String} {stackSize stack : Nat}
    (given : stack ≠ 0) (made : (taskCreate s name stackSize stack).1 = some task) :
    (taskCreate s name stackSize stack).2.usedSlots.card = s.usedSlots.card + 1 := by
  obtain ⟨_, unused, used⟩ := linked.create made given
  have insert : (taskCreate s name stackSize stack).2.usedSlots = insert task s.usedSlots := by
    ext other
    simp [Scheduler.usedSlots, used]
  have absent : task ∉ s.usedSlots := by simpa [Scheduler.usedSlots] using unused
  rw [insert, Finset.card_insert_of_notMem absent]

/-- From a state with some slots used, every `task_create` of a run finds a slot exactly if they
are not more than the slots that are left. -/
theorem LinksUsed.findsSlot_iff (linked : LinksUsed s) {calls : List SchedulerCall}
    (given : ∀ call ∈ calls, call.StackGiven) :
    Along Scheduler.call FindsSlot s calls ↔
      s.usedSlots.card + calls.countP SchedulerCall.creates ≤ maxTasks := by
  induction calls generalizing s with
  | nil =>
      refine iff_of_true trivial ?_
      simpa using Finset.card_le_univ s.usedSlots
  | cons call rest ih =>
      have later := fun other member => given other (List.mem_cons_of_mem call member)
      cases creates : call.creates with
      | false =>
          have same := linked.call creates
          have finds : FindsSlot s call := by
            cases call with
            | taskCreate => cases creates
            | _ => trivial
          rw [List.countP_cons_of_neg (by simp [creates]), ← same.usedSlots]
          exact ⟨fun along => (ih same.linked later).mp along.2,
            fun enough => ⟨finds, (ih same.linked later).mpr enough⟩⟩
      | true =>
          cases call with
          | taskCreate name stackSize stack =>
              have stackGiven : stack ≠ 0 := given _ List.mem_cons_self
              rw [List.countP_cons_of_pos rfl]
              cases made : (taskCreate s name stackSize stack).1 with
              | none =>
                  have full := usedSlots_full stackGiven made
                  exact iff_of_false (fun along => along.1 made) (by omega)
              | some task =>
                  have rest := ih (linked.create made stackGiven).1 later
                  rw [linked.usedSlots_create stackGiven made] at rest
                  have finds : FindsSlot s (.taskCreate name stackSize stack) := by
                    simp [FindsSlot, made]
                  constructor
                  · intro along
                    have := rest.mp along.2
                    omega
                  · intro enough
                    exact ⟨finds, rest.mpr (by omega)⟩
          | _ => cases creates

theorem schedulerBoot_tasks {stack : Nat} (given : stack ≠ 0) :
    (schedulerBoot stack).readyQueueHead = none ∧ (schedulerBoot stack).readyQueueTail = none ∧
      ∀ task, ((schedulerBoot stack).tasks task).next = none ∧
        ((schedulerBoot stack).tasks task).state =
          if task = 0 then .running else if task = 1 then .ready else .unused := by
  unfold schedulerBoot schedulerInit taskCreate
  dsimp only
  rw [allocTaskSlot_first (by simp) (by simp [Task.zero])]
  simp only [given, if_false, readyQueueAdd, readyQueuePop, Scheduler.setTask, if_true]
  refine ⟨rfl, rfl, fun task => ?_⟩
  by_cases idle : task = 1 <;> by_cases first : task = 0 <;> simp [idle, first, Task.zero]

theorem schedulerBoot_used {stack : Nat} (given : stack ≠ 0) :
    LinksUsed (schedulerBoot stack) ∧ (schedulerBoot stack).usedSlots = {0, 1} := by
  obtain ⟨head, tail, tasks⟩ := schedulerBoot_tasks given
  refine ⟨⟨by simp [head], by simp [tail], ⟨0, (schedulerBoot_current stack).1, ?_⟩,
    by simp [tasks]⟩, ?_⟩
  · simp [Used, tasks]
  · ext task
    simp only [Scheduler.usedSlots, Finset.mem_filter, Finset.mem_univ, true_and, Used, tasks,
      Finset.mem_insert, Finset.mem_singleton]
    by_cases first : task = 0 <;> by_cases idle : task = 1 <;> simp [first, idle]

theorem schedulerBoot_findsSlot_iff {stack : Nat} (given : stack ≠ 0) {calls : List SchedulerCall}
    (memory : ∀ call ∈ calls, call.StackGiven) :
    Along Scheduler.call FindsSlot (schedulerBoot stack) calls ↔
      calls.countP SchedulerCall.creates ≤ 62 := by
  obtain ⟨linked, used⟩ := schedulerBoot_used given
  rw [linked.findsSlot_iff memory, used, Finset.card_pair (by decide), maxTasks]
  omega

end Slots

/-- In a run with memory for every stack, no `task_create` lacks a slot exactly if there are at
most 62 of them: the two slots of `scheduler_init` are used, and no slot is used twice. -/
theorem task_slots_iff {stack : Nat} (given : stack ≠ 0) (calls : List SchedulerCall)
    (memory : ∀ call ∈ calls, call.StackGiven) :
    Along Scheduler.call FindsSlot (schedulerBoot stack) calls ↔
      calls.countP SchedulerCall.creates ≤ 62 :=
  schedulerBoot_findsSlot_iff given memory

theorem task_slots_iff_two :
    Along Scheduler.call FindsSlot (schedulerBoot 0xD0000018)
        [.taskCreate "a" 0 0xD0001018, .taskCreate "b" 0 0xD0002018] ↔
      [SchedulerCall.taskCreate "a" 0 0xD0001018, .taskCreate "b" 0 0xD0002018].countP
        SchedulerCall.creates ≤ 62 := by
  refine task_slots_iff (by decide) _ ?_
  simp [SchedulerCall.StackGiven]

section Workers

variable {s : Scheduler}

structure Lively (s : Scheduler) : Prop extends Scheduled s where
  runs : ∀ current, s.currentTask = some current → (s.tasks current).state = .running

theorem mem_alive {task : TaskRef} : task ∈ s.alive ↔
    (s.tasks task).state ≠ .unused ∧ (s.tasks task).state ≠ .zombie := by
  simp [Scheduler.alive]

theorem taskCreate_alive (s : Scheduler) (name : String) (stackSize : Nat) {stack : Nat}
    (given : stack ≠ 0) :
    (taskCreate s name stackSize stack).2.alive.card ≤ s.alive.card + 1 := by
  cases made : (taskCreate s name stackSize stack).1 with
  | none =>
      rcases taskCreate_cases s name stackSize given with ⟨_, _, same⟩ | ⟨_, _, _, _, some, _⟩
      · rw [same]
        omega
      · cases made.symm.trans some
  | some task =>
      have inside : (taskCreate s name stackSize stack).2.alive ⊆ insert task s.alive := by
        intro other member
        rw [mem_alive, taskCreate_state made given] at member
        rw [Finset.mem_insert, mem_alive]
        by_cases own : other = task
        · exact .inl own
        · rw [if_neg own] at member
          exact .inr member
      exact (Finset.card_le_card inside).trans (Finset.card_insert_le task s.alive)

theorem Lively.create (lively : Lively s) {name : String} {stackSize stack : Nat}
    (given : stack ≠ 0) (finds : FindsSlot s (.taskCreate name stackSize stack)) :
    Lively (taskCreate s name stackSize stack).2 ∧
      (taskCreate s name stackSize stack).2.readyQueueHead ≠ none := by
  obtain ⟨task, made⟩ := Option.ne_none_iff_exists'.mp finds
  have state := taskCreate_state made given
  have scheduled := taskCreate_scheduled lively.toScheduled name stackSize stack
  have current := taskCreate_current s name stackSize stack
  rcases taskCreate_cases s name stackSize given with ⟨_, none, _⟩ |
    ⟨other, content, found, _, some, after⟩
  · cases none.symm.trans made
  cases Option.some.inj (some.symm.trans made)
  have unused := allocTaskSlot_some found
  refine ⟨⟨scheduled, fun runner isCurrent => ?_⟩, ?_⟩
  · rw [current] at isCurrent
    have running := lively.runs runner isCurrent
    have apart : runner ≠ task := by
      rintro rfl
      exact unused (by simp [Used, running])
    rw [state, if_neg apart, running]
  · obtain ⟨queue, sound⟩ := scheduled.sound
    rw [Ne, ← sound.linked.tail_none_iff, after, (readyQueueAdd_ends _ task).1]
    simp

/-- The current task stops, and the first of the queue runs in its place. -/
theorem Lively.stop_state (lively : Lively s) (more : s.readyQueueHead ≠ none) {current : TaskRef}
    (isCurrent : s.currentTask = some current) (content : Task TaskRef)
    (stops : content.state = .blocked ∨ content.state = .zombie) :
    Scheduled (scheduleForce (s.setTask current content)) ∧ ∃ next, next ≠ current ∧
      (scheduleForce (s.setTask current content)).currentTask = some next ∧
      (s.tasks next).state = .ready ∧
      ∀ task, ((scheduleForce (s.setTask current content)).tasks task).state =
        if task = next then .running else if task = current then content.state
          else (s.tasks task).state := by
  have halted : content.state ≠ .unused ∧ content.state ≠ .running ∧ content.state ≠ .ready := by
    rcases stops with state | state <;> simp [state]
  have marked : Scheduled (s.setTask current content) :=
    lively.toScheduled.retire isCurrent halted.1 halted.2.1 halted.2.2
  rcases marked.force_effect with ⟨empty, _⟩ | ⟨next, _, ready, isNext, running, others⟩
  · exact absurd empty more
  have apart : next ≠ current := by
    rintro rfl
    rw [setTask_self] at ready
    exact halted.2.2 ready
  have still : ∀ task, task ≠ current → (s.tasks task).state ≠ .running := by
    intro task notCurrent taskRuns
    obtain ⟨queue, sound⟩ := lively.sound
    exact notCurrent (Option.some.inj ((sound.running task taskRuns).symm.trans isCurrent))
  refine ⟨marked.force, next, apart, isNext, ?_, fun task => ?_⟩
  · rwa [setTask_other _ _ apart] at ready
  · by_cases isThis : task = next
    · rw [if_pos isThis, isThis, running]
    · rw [if_neg isThis]
      by_cases own : task = current
      · rw [if_pos own, (others task isThis (by rw [own, setTask_self]; exact halted.2.1)).state,
          own, setTask_self]
      · rw [if_neg own, (others task isThis (by
          rw [setTask_other _ _ own]
          exact still task own)).state, setTask_other _ _ own]

theorem Lively.stop (lively : Lively s) (more : s.readyQueueHead ≠ none) {current : TaskRef}
    (isCurrent : s.currentTask = some current) (content : Task TaskRef)
    (stops : content.state = .blocked ∨ content.state = .zombie) :
    Lively (scheduleForce (s.setTask current content)) ∧
      (scheduleForce (s.setTask current content)).alive ⊆ s.alive ∧
      (content.state = .zombie →
        (scheduleForce (s.setTask current content)).alive.card + 1 ≤ s.alive.card) := by
  have runs := lively.runs current isCurrent
  obtain ⟨scheduled, next, apart, isNext, ready, state⟩ :=
    lively.stop_state more isCurrent content stops
  have inside : (scheduleForce (s.setTask current content)).alive ⊆ s.alive := by
    intro task member
    rw [mem_alive, state] at member
    rw [mem_alive]
    by_cases isThis : task = next
    · simp [isThis, ready]
    · by_cases own : task = current
      · simp [own, runs]
      · simpa [isThis, own] using member
  refine ⟨⟨scheduled, fun task isTask => ?_⟩, inside, fun zombie => ?_⟩
  · cases Option.some.inj (isNext.symm.trans isTask)
    rw [state, if_pos rfl]
  · refine Finset.card_lt_card (Finset.ssubset_iff_subset_ne.mpr ⟨inside, fun same => ?_⟩)
    have member : current ∈ s.alive := by simp [mem_alive, runs]
    rw [← same, mem_alive, state, if_neg (Ne.symm apart), if_pos rfl, zombie] at member
    exact member.2 rfl

theorem Lively.exit (lively : Lively s) (more : s.readyQueueHead ≠ none) :
    Lively (s.call .taskExit) ∧ (s.call .taskExit).alive.card + 1 ≤ s.alive.card := by
  obtain ⟨current, isCurrent, _⟩ := lively.current
  have exits : s.call .taskExit =
      scheduleForce (s.setTask current { s.tasks current with state := .zombie }) := by
    simp only [Scheduler.call, taskExit, isCurrent]
  obtain ⟨stopped, _, fewer⟩ := lively.stop more isCurrent
    { s.tasks current with state := .zombie } (.inr rfl)
  rw [exits]
  exact ⟨stopped, fewer rfl⟩

theorem Lively.block (lively : Lively s) (more : s.readyQueueHead ≠ none) (reason : Nat) :
    Lively (s.call (.taskBlock reason)) ∧
      (s.call (.taskBlock reason)).alive.card ≤ s.alive.card := by
  obtain ⟨current, isCurrent, _⟩ := lively.current
  have blocks : s.call (.taskBlock reason) = scheduleForce (s.setTask current
      { s.tasks current with state := .blocked, blockReason := reason }) := by
    simp only [Scheduler.call, taskBlock, isCurrent]
  obtain ⟨stopped, inside, _⟩ := lively.stop more isCurrent
    { s.tasks current with state := .blocked, blockReason := reason } (.inl rfl)
  rw [blocks]
  exact ⟨stopped, Finset.card_le_card inside⟩

def makeWorker : SchedulerCall := .taskCreate "worker" 0 0xD0002018

theorem makeWorker_given : makeWorker.StackGiven := by simp [makeWorker, SchedulerCall.StackGiven]

theorem makeWorker_alive (s : Scheduler) : (s.call makeWorker).alive.card ≤ s.alive.card + 1 :=
  taskCreate_alive s "worker" 0 (by decide)

theorem Lively.makes (lively : Lively s) (finds : FindsSlot s makeWorker) :
    Lively (s.call makeWorker) ∧ (s.call makeWorker).readyQueueHead ≠ none :=
  lively.create (by decide) finds

def workers (rounds : Nat) : List SchedulerCall :=
  (List.replicate rounds [makeWorker, .taskExit]).flatten

def FewAlive (s : Scheduler) (call : SchedulerCall) : Prop := (s.call call).alive.card ≤ 60

theorem Lively.workers (lively : Lively s) (few : s.alive.card ≤ 3) {rounds : Nat}
    (finds : Along Scheduler.call FindsSlot s (ZurichOS.workers rounds)) :
    Along Scheduler.call FewAlive s (ZurichOS.workers rounds) ∧
      Lively ((ZurichOS.workers rounds).foldl Scheduler.call s) ∧
      ((ZurichOS.workers rounds).foldl Scheduler.call s).alive.card ≤ 3 := by
  induction rounds generalizing s with
  | zero => exact ⟨trivial, lively, few⟩
  | succ rounds ih =>
      have shape : ZurichOS.workers (rounds + 1) =
          makeWorker :: .taskExit :: ZurichOS.workers rounds := rfl
      rw [shape] at finds ⊢
      obtain ⟨found, _, later⟩ := finds
      obtain ⟨created, more⟩ := lively.makes found
      obtain ⟨exited, fewer⟩ := created.exit more
      have grows := makeWorker_alive s
      obtain ⟨rest, last⟩ := ih exited (by omega) later
      have four : FewAlive s makeWorker := grows.trans (by omega)
      have three : FewAlive (s.call makeWorker) .taskExit :=
        (Nat.le_of_succ_le fewer).trans (grows.trans (by omega))
      exact ⟨⟨four, three, rest⟩, last⟩

theorem schedulerBoot_lively {stack : Nat} (given : stack ≠ 0) :
    Lively (schedulerBoot stack) ∧ (schedulerBoot stack).alive.card = 2 := by
  obtain ⟨isKernel, running⟩ := schedulerBoot_current stack
  refine ⟨⟨schedulerBoot_scheduled stack, fun current isCurrent => ?_⟩, ?_⟩
  · cases Option.some.inj (isKernel.symm.trans isCurrent)
    exact running
  · obtain ⟨_, _, tasks⟩ := schedulerBoot_tasks given
    have two : (schedulerBoot stack).alive = {0, 1} := by
      ext task
      rw [mem_alive, (tasks task).2]
      by_cases first : task = 0 <;> by_cases idle : task = 1 <;> simp [first, idle]
    rw [two]
    decide

/-- The kernel makes a worker and waits; more workers come and go, and one more is made. -/
def workerRun (rounds : Nat) : List SchedulerCall := makeWorker :: .taskBlock 1 :: workers rounds

theorem workerRun_given (rounds : Nat) :
    ∀ call ∈ workerRun rounds ++ [makeWorker], call.StackGiven := by
  have given : ∀ call ∈ workers rounds, call.StackGiven := by
    intro call member
    obtain ⟨round, isRound, inside⟩ := List.mem_flatten.mp member
    rw [List.eq_of_mem_replicate isRound] at inside
    rcases List.mem_pair.mp inside with rfl | rfl
    · exact makeWorker_given
    · trivial
  simp only [workerRun, List.cons_append, List.forall_mem_cons, List.forall_mem_append]
  exact ⟨makeWorker_given, trivial, given, makeWorker_given, by simp⟩

theorem workerRun_creates (rounds : Nat) :
    (workerRun rounds).countP SchedulerCall.creates = rounds + 1 := by
  have creates : (workers rounds).countP SchedulerCall.creates = rounds := by
    induction rounds with
    | zero => rfl
    | succ rounds ih =>
        have shape : workers (rounds + 1) = makeWorker :: .taskExit :: workers rounds := rfl
        rw [shape, List.countP_cons_of_pos rfl, List.countP_cons_of_neg Bool.false_ne_true, ih]
  rw [workerRun, List.countP_cons_of_pos rfl, List.countP_cons_of_neg Bool.false_ne_true, creates]

theorem workerRun_few {stack rounds : Nat} (given : stack ≠ 0)
    (finds : Along Scheduler.call FindsSlot (schedulerBoot stack) (workerRun rounds)) :
    Along Scheduler.call FewAlive (schedulerBoot stack) (workerRun rounds ++ [makeWorker]) := by
  obtain ⟨kernel, two⟩ := schedulerBoot_lively given
  obtain ⟨created, more⟩ := kernel.makes finds.1
  obtain ⟨blocked, kept⟩ := created.block more 1
  have grows := makeWorker_alive (schedulerBoot stack)
  obtain ⟨few, _, three⟩ := blocked.workers (kept.trans (grows.trans (by omega))) finds.2.2
  refine along_append.mpr ⟨⟨grows.trans (by omega), kept.trans (grows.trans (by omega)), few⟩, ?_,
    trivial⟩
  exact (makeWorker_alive _).trans ((Nat.add_le_add_right three 1).trans (by decide))

end Workers

/-- With never more than four tasks alive, the 63rd `task_create` finds no slot. -/
theorem task_slots_run_out :
    ¬ ∀ stack, stack ≠ 0 → ∀ calls : List SchedulerCall, (∀ call ∈ calls, call.StackGiven) →
      Along Scheduler.call FewAlive (schedulerBoot stack) calls →
      Along Scheduler.call FindsSlot (schedulerBoot stack) calls := by
  intro reclaimed
  have stack : 0xD0000018 ≠ 0 := by decide
  have memory := workerRun_given 61
  have finds : Along Scheduler.call FindsSlot (schedulerBoot 0xD0000018) (workerRun 61) := by
    rw [schedulerBoot_findsSlot_iff stack fun call member => memory call (by simp [member]),
      workerRun_creates]
  have all := reclaimed 0xD0000018 stack _ memory (workerRun_few stack finds)
  rw [schedulerBoot_findsSlot_iff stack memory, List.countP_append, workerRun_creates] at all
  exact absurd all (by decide)

end ZurichOS
