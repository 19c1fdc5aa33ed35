import ZurichOS.PartialTable
import ZurichOS.ProcessTable
import ZurichOS.Transitions

set_option linter.all false

/-!
What becomes of the status a process exits with: it is kept until the process is reaped, and
handed once, to its parent.
-/

namespace ZurichOS

open Words PartialTable Transitions

/-- What happens to processes, told apart from the table that the kernel keeps. -/
inductive ExitObservation where
  | created (pid ppid : Nat)
  | exited (pid : Nat) (status : Int)
  | delivered (caller : Nat) (result status : Int)
deriving DecidableEq

structure ExitRun where
  processes : Processes
  log : List ExitObservation

inductive ExitCall where
  | create (name : List Char) (ppid : Nat)
  | fork
  | exit (status : Int)
  | wait (pid : Int)
  | switch (pid : Nat)

def callerPid (s : Processes) : Nat := (processCurrent s).elim 0 fun i => (s.table i).pid

/-- The run after a call that may have taken a new pid, with the parent it was given. -/
def ExitRun.grow (r : ExitRun) (after : Processes) (ppid : Nat) : ExitRun :=
  { processes := after
    log := if after.nextPid = r.processes.nextPid then r.log
      else .created r.processes.nextPid ppid :: r.log }

def exitCall (r : ExitRun) : ExitCall → ExitRun
  | .create name ppid => r.grow (processCreate r.processes name ppid).2 ppid
  | .fork => r.grow (processFork r.processes).2 (callerPid r.processes)
  | .exit status =>
      { processes := processExit r.processes status
        log := if 1 < callerPid r.processes then .exited (callerPid r.processes) status :: r.log
          else r.log }
  | .wait pid =>
      let result := processWaitpid r.processes pid
      { processes := result.2.2
        log := result.2.1.elim r.log fun status =>
          .delivered (callerPid r.processes) result.1 status :: r.log }
  | .switch pid => { r with processes := processSetCurrent r.processes pid }

def ExitStep (r : ExitRun) (call : ExitCall) (after : ExitRun) : Prop := after = exitCall r call

/-- Only a process that has not exited makes the calls of a process. -/
def RunsLive (r : ExitRun) : ExitCall → Prop
  | .fork | .exit _ | .wait _ => ∀ i, processCurrent r.processes = some i →
      (r.processes.table i).state ≠ .zombie
  | .create _ _ | .switch _ => True

def ExitRun.boot : ExitRun := ⟨processInit, []⟩

def creations : List ExitObservation → Nat
  | [] => 0
  | .created _ _ :: log => creations log + 1
  | .exited _ _ :: log | .delivered _ _ _ :: log => creations log

/-- The parent of a process: the one it was created with, and 1 once that one has exited. -/
def parentOf : List ExitObservation → Nat → Nat
  | [], _ => 0
  | .created child ppid :: log, pid => if pid = child then ppid else parentOf log pid
  | .exited gone _ :: log, pid => if parentOf log pid = gone then 1 else parentOf log pid
  | .delivered _ _ _ :: log, pid => parentOf log pid

/-- A process exits once, and its status is handed over after that, once, to its parent. -/
def DeliveriesSound : List ExitObservation → Prop
  | [] => True
  | .created _ _ :: log => DeliveriesSound log
  | .exited pid _ :: log => (∀ status, .exited pid status ∉ log) ∧ DeliveriesSound log
  | .delivered caller result status :: log =>
      (∃ pid < 4294967296, result = int32 pid ∧ .exited pid status ∈ log ∧
        caller = parentOf log pid ∧ ∀ other code, .delivered other (int32 pid) code ∉ log) ∧
      DeliveriesSound log

/-- The process is in the table as a zombie with the status it passed. -/
def IsZombie (s : Processes) (pid : Nat) (status : Int) : Prop :=
  ∃ i < maxProcesses, (s.table i).state = .zombie ∧ (s.table i).pid = pid ∧
    (s.table i).exitCode = status

structure ExitKept (r : ExitRun) : Prop where
  unique : ∀ i j first second, r.processes.entries i = some first →
    r.processes.entries j = some second → first.pid = second.pid → i = j
  next : r.processes.nextPid = 2 + creations r.log
  below : ∀ i entry, r.processes.entries i = some entry → entry.pid < r.processes.nextPid
  exitedBelow : ∀ pid status, .exited pid status ∈ r.log → pid < r.processes.nextPid
  deliveredBelow : ∀ caller result status, .delivered caller result status ∈ r.log →
    ∃ pid < r.processes.nextPid, result = int32 pid
  zombies : ∀ i entry, r.processes.entries i = some entry → entry.zombie = true →
    .exited entry.pid entry.exitCode ∈ r.log
  alive : ∀ i entry, r.processes.entries i = some entry → entry.zombie = false →
    ∀ status, .exited entry.pid status ∉ r.log
  waiting : ∀ i entry, r.processes.entries i = some entry →
    ∀ caller code, .delivered caller (int32 entry.pid) code ∉ r.log
  accounted : ∀ pid status, .exited pid status ∈ r.log →
    (∃ caller, .delivered caller (int32 pid) status ∈ r.log) ∨ ∃ i entry,
      r.processes.entries i = some entry ∧ entry.zombie = true ∧ entry.pid = pid ∧
        entry.exitCode = status
  parents : ∀ i entry, r.processes.entries i = some entry → entry.ppid = parentOf r.log entry.pid
  sound : DeliveriesSound r.log

section Steps

variable {r : ExitRun}

theorem callerPid_eq {s : Processes} {i : Nat} (current : processCurrent s = some i) :
    callerPid s = (s.table i).pid := by
  rw [callerPid, current]
  rfl

theorem ExitKept.congr (kept : ExitKept r) {after : Processes}
    (entries : after.entries = r.processes.entries) (next : after.nextPid = r.processes.nextPid) :
    ExitKept ⟨after, r.log⟩ := by
  obtain ⟨unique, next', below, exitedBelow, deliveredBelow, zombies, alive, waiting, accounted,
    parents, sound⟩ := kept
  rw [← entries] at unique below zombies alive waiting parents
  rw [← next] at next' below exitedBelow deliveredBelow
  refine ⟨unique, next', below, exitedBelow, deliveredBelow, zombies, alive, waiting, ?_, parents,
    sound⟩
  intro pid status exited
  rw [entries]
  exact accounted pid status exited

theorem ExitKept.insert (kept : ExitKept r) (few : creations r.log < 2147483648)
    {after : Processes} {slot ppid : Nat} (free : r.processes.entries slot = none)
    (next : after.nextPid = u32 (r.processes.nextPid + 1))
    (entries : after.entries = Function.update r.processes.entries slot
      (some ⟨r.processes.nextPid, ppid, false, 0⟩)) : ExitKept (r.grow after ppid) := by
  have nextEq := kept.next
  have succ : after.nextPid = r.processes.nextPid + 1 := next.trans (u32_eq_of_lt (by omega))
  have grown : r.grow after ppid = ⟨after, .created r.processes.nextPid ppid :: r.log⟩ := by
    rw [ExitRun.grow, if_neg (by omega)]
  have cases : ∀ {i entry}, after.entries i = some entry →
      (i = slot ∧ entry = ⟨r.processes.nextPid, ppid, false, 0⟩) ∨
        (i ≠ slot ∧ r.processes.entries i = some entry) := by
    intro i entry held
    rw [entries] at held
    exact (update_some.mp held).imp_left fun ⟨own, new⟩ => ⟨own, (Option.some.inj new).symm⟩
  have others : ∀ {i entry}, r.processes.entries i = some entry → after.entries i = some entry :=
    fun held => entries ▸ update_empty free held _
  have old : ∀ {i entry}, r.processes.entries i = some entry → entry.pid ≠ r.processes.nextPid :=
    fun held => Nat.ne_of_lt (kept.below _ _ held)
  rw [grown]
  constructor
  case unique =>
    intro i j first second isFirst isSecond same
    rcases cases isFirst with ⟨rfl, rfl⟩ | ⟨_, heldFirst⟩
    · rcases cases isSecond with ⟨rfl, _⟩ | ⟨_, heldSecond⟩
      · rfl
      · exact absurd same.symm (old heldSecond)
    · rcases cases isSecond with ⟨rfl, rfl⟩ | ⟨_, heldSecond⟩
      · exact absurd same (old heldFirst)
      · exact kept.unique i j first second heldFirst heldSecond same
  case next =>
    show after.nextPid = 2 + (creations r.log + 1)
    omega
  case below =>
    intro i entry held
    show entry.pid < after.nextPid
    rcases cases held with ⟨_, rfl⟩ | ⟨_, held⟩
    · exact succ ▸ Nat.lt_succ_self _
    · have below := kept.below i entry held
      omega
  case exitedBelow =>
    intro pid status exited
    have below := kept.exitedBelow pid status (by simpa using exited)
    show pid < after.nextPid
    omega
  case deliveredBelow =>
    intro caller result status delivered
    obtain ⟨pid, below, isPid⟩ := kept.deliveredBelow caller result status (by simpa using delivered)
    exact ⟨pid, show pid < after.nextPid by omega, isPid⟩
  case zombies =>
    intro i entry held zombie
    rcases cases held with ⟨_, rfl⟩ | ⟨_, held⟩
    · cases zombie
    · exact List.mem_cons_of_mem _ (kept.zombies i entry held zombie)
  case alive =>
    intro i entry held running status exited
    have logged : .exited entry.pid status ∈ r.log := by simpa using exited
    rcases cases held with ⟨_, rfl⟩ | ⟨_, held⟩
    · exact absurd (kept.exitedBelow _ status logged) (Nat.lt_irrefl _)
    · exact kept.alive i entry held running status logged
  case waiting =>
    intro i entry held caller code delivered
    have logged : .delivered caller (int32 entry.pid) code ∈ r.log := by simpa using delivered
    rcases cases held with ⟨_, rfl⟩ | ⟨_, held⟩
    · obtain ⟨pid, below, isPid⟩ := kept.deliveredBelow _ _ _ logged
      have word : r.processes.nextPid < 4294967296 := by omega
      have same := int32_injective word (by omega) isPid
      omega
    · exact kept.waiting i entry held caller code logged
  case accounted =>
    intro pid status exited
    rcases kept.accounted pid status (by simpa using exited) with ⟨caller, delivered⟩ | zombie
    · exact .inl ⟨caller, List.mem_cons_of_mem _ delivered⟩
    · obtain ⟨i, entry, held, zombie, rest⟩ := zombie
      exact .inr ⟨i, entry, others held, zombie, rest⟩
  case parents =>
    intro i entry held
    rcases cases held with ⟨_, rfl⟩ | ⟨_, held⟩
    · simp [parentOf]
    · simp only [parentOf, if_neg (old held)]
      exact kept.parents i entry held
  case sound =>
    exact kept.sound

theorem ExitKept.exit (kept : ExitKept r) {status : Int} {i : Nat}
    (current : processCurrent r.processes = some i)
    (running : (r.processes.table i).state ≠ .zombie) {after : Processes}
    (next : after.nextPid = r.processes.nextPid)
    (entries : after.entries = fun j => (r.processes.entries j).map fun entry =>
      { pid := entry.pid
        ppid := if entry.ppid = (r.processes.table i).pid then 1 else entry.ppid
        zombie := if j = i then true else entry.zombie
        exitCode := if j = i then status else entry.exitCode }) :
    ExitKept ⟨after, .exited (r.processes.table i).pid status :: r.log⟩ := by
  obtain ⟨own, heldOwn, ownPid, _⟩ := processGet_entry current
  have pid := (entries_some heldOwn).2.2.1
  have ownAlive : own.zombie = false := by
    rw [← (entries_some heldOwn).2.2.2.2.1]
    exact decide_eq_false running
  have cases : ∀ {j entry}, after.entries j = some entry →
      ∃ before, r.processes.entries j = some before ∧ entry.pid = before.pid ∧
        entry.ppid = (if before.ppid = own.pid then 1 else before.ppid) ∧
        entry.zombie = (if j = i then true else before.zombie) ∧
        entry.exitCode = (if j = i then status else before.exitCode) := by
    intro j entry held
    rw [entries, pid] at held
    obtain ⟨before, heldBefore, rfl⟩ := Option.map_eq_some_iff.mp held
    exact ⟨before, heldBefore, rfl, rfl, rfl, rfl⟩
  have unlogged : ∀ code, .exited own.pid code ∉ r.log := kept.alive i own heldOwn ownAlive
  rw [pid]
  constructor
  case unique =>
    intro j k first second isFirst isSecond same
    obtain ⟨before, held, isPid, _⟩ := cases isFirst
    obtain ⟨other, heldOther, isOther, _⟩ := cases isSecond
    exact kept.unique j k before other held heldOther (by rw [← isPid, same, isOther])
  case next =>
    exact next.trans kept.next
  case below =>
    intro j entry held
    obtain ⟨before, heldBefore, isPid, _⟩ := cases held
    show entry.pid < after.nextPid
    rw [isPid, next]
    exact kept.below j before heldBefore
  case exitedBelow =>
    intro gone code exited
    show gone < after.nextPid
    rw [next]
    rcases List.mem_cons.mp exited with first | earlier
    · cases first
      exact kept.below i own heldOwn
    · exact kept.exitedBelow gone code earlier
  case deliveredBelow =>
    intro caller result code delivered
    obtain ⟨gone, below, isPid⟩ := kept.deliveredBelow caller result code (by simpa using delivered)
    exact ⟨gone, next ▸ below, isPid⟩
  case zombies =>
    intro j entry held zombie
    obtain ⟨before, heldBefore, isPid, _, wasZombie, code⟩ := cases held
    by_cases same : j = i
    · subst same
      rw [heldOwn] at heldBefore
      cases heldBefore
      rw [isPid, code, if_pos rfl]
      exact List.mem_cons_self ..
    · rw [if_neg same] at wasZombie code
      rw [isPid, code]
      exact List.mem_cons_of_mem _ (kept.zombies j before heldBefore (wasZombie ▸ zombie))
  case alive =>
    intro j entry held alive code exited
    obtain ⟨before, heldBefore, isPid, _, wasZombie, _⟩ := cases held
    by_cases same : j = i
    · rw [if_pos same, alive] at wasZombie
      cases wasZombie
    · rw [if_neg same] at wasZombie
      rw [isPid] at exited
      rcases List.mem_cons.mp exited with first | earlier
      · injection first with samePid
        exact same (kept.unique j i before own heldBefore heldOwn samePid)
      · exact kept.alive j before heldBefore (wasZombie ▸ alive) code earlier
  case waiting =>
    intro j entry held caller code delivered
    obtain ⟨before, heldBefore, isPid, _⟩ := cases held
    rw [isPid] at delivered
    exact kept.waiting j before heldBefore caller code (by simpa using delivered)
  case accounted =>
    intro gone code exited
    rcases List.mem_cons.mp exited with first | earlier
    · cases first
      have moved := congrFun entries i
      rw [heldOwn, Option.map_some] at moved
      exact .inr ⟨i, _, moved, by simp⟩
    · rcases kept.accounted gone code earlier with ⟨caller, delivered⟩ | zombie
      · exact .inl ⟨caller, List.mem_cons_of_mem _ delivered⟩
      · obtain ⟨j, before, heldBefore, wasZombie, isPid, isCode⟩ := zombie
        have apart : j ≠ i := by
          rintro rfl
          rw [heldOwn] at heldBefore
          cases heldBefore
          rw [ownAlive] at wasZombie
          cases wasZombie
        have moved := congrFun entries j
        rw [heldBefore, Option.map_some] at moved
        exact .inr ⟨j, _, moved, by simp [apart, wasZombie, isPid, isCode]⟩
  case parents =>
    intro j entry held
    obtain ⟨before, heldBefore, isPid, parent, _⟩ := cases held
    rw [isPid, parent, parentOf, ← kept.parents j before heldBefore]
  case sound =>
    exact ⟨unlogged, kept.sound⟩

theorem ExitKept.reap (kept : ExitKept r) (few : creations r.log < 2147483648) {i : Nat}
    {entry : ProcEntry} (held : r.processes.entries i = some entry)
    (zombie : entry.zombie = true) {after : Processes}
    (next : after.nextPid = r.processes.nextPid)
    (entries : after.entries = Function.update r.processes.entries i none) :
    ExitKept ⟨after, .delivered entry.ppid (int32 entry.pid) entry.exitCode :: r.log⟩ := by
  have nextEq := kept.next
  have below := kept.below i entry held
  have cases : ∀ {j other}, after.entries j = some other →
      j ≠ i ∧ r.processes.entries j = some other := by
    intro j other isHeld
    rw [entries] at isHeld
    exact update_none_some.mp isHeld
  constructor
  case unique =>
    intro j k first second isFirst isSecond
    exact kept.unique j k first second (cases isFirst).2 (cases isSecond).2
  case next =>
    exact next.trans kept.next
  case below =>
    intro j other isHeld
    exact next ▸ kept.below j other (cases isHeld).2
  case exitedBelow =>
    intro gone code exited
    exact next ▸ kept.exitedBelow gone code (by simpa using exited)
  case deliveredBelow =>
    intro caller result code delivered
    rcases List.mem_cons.mp delivered with first | earlier
    · injection first with _ isResult _
      exact ⟨entry.pid, next ▸ below, isResult⟩
    · obtain ⟨gone, small, isPid⟩ := kept.deliveredBelow caller result code earlier
      exact ⟨gone, next ▸ small, isPid⟩
  case zombies =>
    intro j other isHeld wasZombie
    exact List.mem_cons_of_mem _ (kept.zombies j other (cases isHeld).2 wasZombie)
  case alive =>
    intro j other isHeld alive code exited
    exact kept.alive j other (cases isHeld).2 alive code (by simpa using exited)
  case waiting =>
    intro j other isHeld caller code delivered
    obtain ⟨apart, heldBefore⟩ := cases isHeld
    rcases List.mem_cons.mp delivered with first | earlier
    · injection first with _ samePid _
      have otherBelow := kept.below j other heldBefore
      have same := int32_injective (by omega) (by omega) samePid
      exact apart (kept.unique j i other entry heldBefore held same)
    · exact kept.waiting j other heldBefore caller code earlier
  case accounted =>
    intro gone code exited
    rcases kept.accounted gone code (by simpa using exited) with ⟨caller, delivered⟩ | waits
    · exact .inl ⟨caller, List.mem_cons_of_mem _ delivered⟩
    · obtain ⟨j, other, heldBefore, wasZombie, isPid, isCode⟩ := waits
      by_cases own : j = i
      · subst own
        rw [held] at heldBefore
        cases heldBefore
        exact .inl ⟨entry.ppid, by rw [isPid, isCode]; exact List.mem_cons_self ..⟩
      · refine .inr ⟨j, other, ?_, wasZombie, isPid, isCode⟩
        rw [entries, Function.update_of_ne own]
        exact heldBefore
  case parents =>
    intro j other isHeld
    exact kept.parents j other (cases isHeld).2
  case sound =>
    refine ⟨⟨entry.pid, by omega, rfl, kept.zombies i entry held zombie, ?_, ?_⟩, kept.sound⟩
    · exact kept.parents i entry held
    · exact fun caller code => kept.waiting i entry held caller code

theorem exitCall_kept (kept : ExitKept r) (few : creations r.log < 2147483648) {call : ExitCall}
    (live : RunsLive r call) : ExitKept (exitCall r call) := by
  cases call with
  | create name ppid =>
      rcases processCreate_entries r.processes name ppid with ⟨same, _⟩ | created
      · rw [exitCall, same, ExitRun.grow, if_pos rfl]
        exact kept
      · obtain ⟨slot, _, free, after, created, next, _, entries⟩ := created
        rw [exitCall, created]
        exact kept.insert few free next entries
  | fork =>
      rcases processFork_entries r.processes with ⟨same, _⟩ | forked
      · rw [exitCall, same, ExitRun.grow, if_pos rfl]
        exact kept
      · obtain ⟨parent, current, slot, _, free, next, _, entries⟩ := forked
        rw [exitCall, callerPid_eq current]
        exact kept.insert few free next entries
  | exit status =>
      rw [exitCall]
      rcases processExit_entries r.processes status with ⟨same, low⟩ | exits
      · have shell : ¬ 1 < callerPid r.processes := by
          cases current : processCurrent r.processes with
          | none => simp [callerPid, current]
          | some i =>
              rw [callerPid_eq current]
              exact Nat.not_lt_of_le (low i current)
        rw [same, if_neg shell]
        exact kept
      · obtain ⟨i, current, high, next, _, entries⟩ := exits
        rw [callerPid_eq current, if_pos high]
        exact kept.exit current (live i current) next entries
  | wait pid =>
      rw [exitCall]
      rcases processWaitpid_entries r.processes pid with ⟨same, _⟩ | reaped
      · rw [same]
        exact kept
      · obtain ⟨parent, i, entry, current, _, held, child, zombie, _, result, status, next, _,
          entries⟩ := reaped
        rw [callerPid_eq current, ← child, result, status]
        exact kept.reap few held zombie next entries
  | switch pid => exact kept.congr rfl rfl

theorem exitCall_creations (r : ExitRun) (call : ExitCall) :
    creations r.log ≤ creations (exitCall r call).log := by
  have grows : ∀ after ppid, creations r.log ≤ creations (r.grow after ppid).log := by
    intro after ppid
    unfold ExitRun.grow
    dsimp only
    split
    · exact Nat.le_refl _
    · exact Nat.le_succ _
  cases call with
  | create name ppid => exact grows _ _
  | fork => exact grows _ _
  | exit status =>
      rw [exitCall]
      dsimp only
      split
      · exact Nat.le_refl _
      · exact Nat.le_refl _
  | wait pid =>
      rw [exitCall]
      cases (processWaitpid r.processes pid).2.1 with
      | none => exact Nat.le_refl _
      | some status => exact Nat.le_refl _
  | switch pid => exact Nat.le_refl _

theorem boot_kept : ExitKept .boot := by
  have entries : ExitRun.boot.processes.entries = _ := funext processInit_entries
  have cases : ∀ {i entry}, ExitRun.boot.processes.entries i = some entry →
      (i = 0 ∧ entry = ⟨0, 0, false, 0⟩) ∨ (i = 1 ∧ entry = ⟨1, 0, false, 0⟩) := by
    intro i entry held
    rw [entries] at held
    dsimp only at held
    split at held
    · rename_i kernel
      exact .inl ⟨kernel, (Option.some.inj held).symm⟩
    · split at held
      · rename_i shell
        exact .inr ⟨shell, (Option.some.inj held).symm⟩
      · cases held
  constructor
  · intro i j first second isFirst isSecond same
    rcases cases isFirst with ⟨rfl, rfl⟩ | ⟨rfl, rfl⟩
    · rcases cases isSecond with ⟨rfl, rfl⟩ | ⟨rfl, rfl⟩
      · rfl
      · cases same
    · rcases cases isSecond with ⟨rfl, rfl⟩ | ⟨rfl, rfl⟩
      · cases same
      · rfl
  · rfl
  · intro i entry held
    rcases cases held with ⟨_, rfl⟩ | ⟨_, rfl⟩
    · decide
    · decide
  · intro _ _ exited
    cases exited
  · intro _ _ _ delivered
    cases delivered
  · intro i entry held zombie
    rcases cases held with ⟨_, rfl⟩ | ⟨_, rfl⟩
    · cases zombie
    · cases zombie
  · intro _ _ _ _ _ exited
    cases exited
  · intro _ _ _ _ _ delivered
    cases delivered
  · intro _ _ exited
    cases exited
  · intro i entry held
    rcases cases held with ⟨_, rfl⟩ | ⟨_, rfl⟩
    · rfl
    · rfl
  · trivial

end Steps

/-- In a run in which only processes that have not exited run, a process that exits stays a
zombie with its status until its parent, and nobody else, gets the status, once. -/
theorem exit_status_delivery {r : ExitRun}
    (reached : Reachable (fun r => r = .boot) (Restricted RunsLive ExitStep) r)
    (few : creations r.log < 2147483648) :
    DeliveriesSound r.log ∧ ∀ pid status, .exited pid status ∈ r.log →
      (∃ caller, .delivered caller (int32 pid) status ∈ r.log) ∨
        IsZombie r.processes pid status := by
  have kept : creations r.log < 2147483648 → ExitKept r := by
    refine reached.invariant (fun r => creations r.log < 2147483648 → ExitKept r) ?_ ?_
    · rintro r rfl _
      exact boot_kept
    · rintro r call after kept ⟨live, rfl⟩ few
      have fewBefore := Nat.lt_of_le_of_lt (exitCall_creations r call) few
      exact exitCall_kept (kept fewBefore) fewBefore live
  refine ⟨(kept few).sound, fun pid status exited => ?_⟩
  refine ((kept few).accounted pid status exited).imp_right ?_
  rintro ⟨i, entry, held, zombie, isPid, isCode⟩
  obtain ⟨inside, _, pid', _, state, code⟩ := entries_some held
  exact ⟨i, inside, of_decide_eq_true (state.trans zombie), pid'.trans isPid, code.trans isCode⟩

theorem exit_status_delivery_child :
    let child := exitCall (exitCall .boot (.create "child".toList 1)) (.switch 2)
    let gone := exitCall child (.exit 7)
    (∃ caller, .delivered caller (int32 2) 7 ∈ gone.log) ∨ IsZombie gone.processes 2 7 := by
  intro child gone
  have step : ∀ {r : ExitRun} (call : ExitCall),
      Reachable (fun r => r = ExitRun.boot) (Restricted RunsLive ExitStep) r → RunsLive r call →
        Reachable (fun r => r = ExitRun.boot) (Restricted RunsLive ExitStep) (exitCall r call) :=
    fun call reached live => reached.next ⟨live, rfl⟩
  have created := step (.create "child".toList 1) (.start rfl) trivial
  have switched := step (.switch 2) created trivial
  have exited := step (.exit 7) switched fun i current => by
    obtain rfl : i = 2 := Option.some.inj (current.symm.trans (by decide))
    decide
  exact (exit_status_delivery exited (by decide)).2 2 7 (by decide)

end ZurichOS
