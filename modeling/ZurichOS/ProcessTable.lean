import ZurichOS.PipeRefs
import ZurichOS.Signals

/-!
What the calls of `process.c` do to the processes in use: their pids, their parents, and
the exit codes of those that have exited.
-/

namespace ZurichOS

open Words

/-- What the process table says of a process in use. -/
structure ProcEntry where
  pid : Nat
  ppid : Nat
  zombie : Bool
  exitCode : Int

def Process.procEntry (proc : Process) : Option ProcEntry :=
  if proc.state = .unused then none
  else some ⟨proc.pid, proc.ppid, decide (proc.state = .zombie), proc.exitCode⟩

def Processes.entries (s : Processes) (i : Nat) : Option ProcEntry :=
  if i < maxProcesses then (s.table i).procEntry else none

section Entries

variable {s : Processes} {i : Nat}

theorem entries_some {entry : ProcEntry} (found : s.entries i = some entry) :
    i < maxProcesses ∧ (s.table i).state ≠ .unused ∧ (s.table i).pid = entry.pid ∧
      (s.table i).ppid = entry.ppid ∧ decide ((s.table i).state = .zombie) = entry.zombie ∧
      (s.table i).exitCode = entry.exitCode := by
  unfold Processes.entries Process.procEntry at found
  split at found
  · rename_i inside
    split at found
    · cases found
    · rename_i live
      cases found
      exact ⟨inside, live, rfl, rfl, rfl, rfl⟩
  · cases found

theorem entries_live (inside : i < maxProcesses) (live : (s.table i).state ≠ .unused) :
    s.entries i = some ⟨(s.table i).pid, (s.table i).ppid, decide ((s.table i).state = .zombie),
      (s.table i).exitCode⟩ := by
  rw [Processes.entries, if_pos inside, Process.procEntry, if_neg live]

theorem entries_congr {other : Processes}
    (same : ∀ i, (other.table i).procEntry = (s.table i).procEntry) :
    other.entries = s.entries := funext fun i => by
  rw [Processes.entries, Processes.entries, same i]

theorem entries_set (s : Processes) (inside : i < maxProcesses) (proc : Process) :
    (s.set i proc).entries = Function.update s.entries i proc.procEntry := by
  funext j
  by_cases own : j = i
  · subst own
    simp [Processes.entries, inside]
  · simp [Processes.entries, own]

theorem entries_set_same {proc : Process} (same : proc.procEntry = (s.table i).procEntry) :
    (s.set i proc).entries = s.entries := by
  refine entries_congr fun j => ?_
  by_cases own : j = i
  · subst own
    simpa using same
  · simp [own]

theorem processGet_entry {pid : Nat} (found : processGet s pid = some i) :
    ∃ entry, s.entries i = some entry ∧ entry.pid = pid ∧ i < maxProcesses := by
  obtain ⟨inside, live, own⟩ := processGet_some found
  exact ⟨_, entries_live inside live, own, inside⟩

theorem processInit_entries (i : Nat) : processInit.entries i =
    if i = 0 then some ⟨0, 0, false, 0⟩ else if i = 1 then some ⟨1, 0, false, 0⟩ else none := by
  by_cases kernel : i = 0
  · subst kernel
    rfl
  · by_cases shell : i = 1
    · subst shell
      rfl
    · have other : processInit.table i = Process.zero := by simp [processInit, kernel, shell]
      simp [Processes.entries, other, Process.procEntry, Process.zero, kernel, shell]

end Entries

section Calls

variable {s : Processes}

theorem processCreate_entries (s : Processes) (name : List Char) (ppid : Nat) :
    (processCreate s name ppid = (0, s) ∧ ∀ i < maxProcesses, s.entries i ≠ none) ∨
      ∃ slot < maxProcesses, s.entries slot = none ∧ ∃ after, processCreate s name ppid =
        (s.nextPid, after) ∧ after.nextPid = u32 (s.nextPid + 1) ∧
        after.currentPid = s.currentPid ∧
        after.entries = Function.update s.entries slot (some ⟨s.nextPid, ppid, false, 0⟩) := by
  unfold processCreate
  split
  · rename_i full
    refine .inl ⟨rfl, fun i inside free => ?_⟩
    have live := List.find?_eq_none.mp full i (List.mem_range.mpr inside)
    rw [entries_live inside (by simpa using live)] at free
    cases free
  · rename_i slot found
    have dead : (s.table slot).state = .unused := by simpa using List.find?_some found
    have inside := List.mem_range.mp (List.mem_of_find?_eq_some found)
    refine .inr ⟨slot, inside, ?_, _, rfl, rfl, rfl, ?_⟩
    · rw [Processes.entries, if_pos inside, Process.procEntry, if_pos dead]
    · exact entries_set s inside _

theorem processFork_entries (s : Processes) :
    ((processFork s).2 = s ∧ (processCurrent s = none ∨
        ∀ i < maxProcesses, s.entries i ≠ none)) ∨
      ∃ parent, processCurrent s = some parent ∧ ∃ slot < maxProcesses, s.entries slot = none ∧
        (processFork s).2.nextPid = u32 (s.nextPid + 1) ∧
        (processFork s).2.currentPid = s.currentPid ∧
        (processFork s).2.entries = Function.update s.entries slot
          (some ⟨s.nextPid, (s.table parent).pid, false, 0⟩) := by
  unfold processFork
  split
  · rename_i current
    exact .inl ⟨rfl, .inl current⟩
  · rename_i parent current
    rcases processCreate_entries s (s.table parent).name (s.table parent).pid with
      ⟨full, taken⟩ | ⟨slot, inside, free, after, created, next, running, entries⟩
    · rw [full]
      exact .inl ⟨rfl, .inr taken⟩
    · rw [created]
      refine .inr ⟨parent, current, slot, inside, free, ?_⟩
      dsimp only
      split
      · exact ⟨next, running, entries⟩
      · split
        · exact ⟨next, running, entries⟩
        · refine ⟨next, running, (entries_set_same ?_).trans entries⟩
          rfl

/-- A call on the entry that `process_get` finds, or none. -/
theorem processKill_entries (s : Processes) (pid : Nat) :
    ((processKill s pid).2 = s ∧ (pid ≤ 1 ∨ processGet s pid = none)) ∨
      ∃ i, 1 < pid ∧ processGet s pid = some i ∧ (processKill s pid).2.nextPid = s.nextPid ∧
        (processKill s pid).2.currentPid = s.currentPid ∧
        (processKill s pid).2.entries = Function.update s.entries i none := by
  unfold processKill
  split
  · exact .inl ⟨rfl, .inl (by omega)⟩
  · split
    · exact .inl ⟨rfl, .inl (by omega)⟩
    · split
      · rename_i missing
        exact .inl ⟨rfl, .inr missing⟩
      · rename_i i found
        exact .inr ⟨i, by omega, found, rfl, rfl, entries_set s (processGet_some found).1 _⟩

theorem processWaitpid_entries (s : Processes) (pid : Int) :
    ((processWaitpid s pid).2 = (none, s) ∧ ∀ parent, processCurrent s = some parent →
        (List.range maxProcesses).find? (waitsFor s parent pid) = none) ∨
      ∃ parent i entry, processCurrent s = some parent ∧
        (List.range maxProcesses).find? (waitsFor s parent pid) = some i ∧
        s.entries i = some entry ∧
        entry.ppid = (s.table parent).pid ∧ entry.zombie = true ∧
        (pid ≤ 0 ∨ entry.pid = pid.toNat) ∧
        (processWaitpid s pid).1 = int32 entry.pid ∧
        (processWaitpid s pid).2.1 = some entry.exitCode ∧
        (processWaitpid s pid).2.2.nextPid = s.nextPid ∧
        (processWaitpid s pid).2.2.currentPid = s.currentPid ∧
        (processWaitpid s pid).2.2.entries = Function.update s.entries i none := by
  unfold processWaitpid
  split
  · rename_i current
    exact .inl ⟨rfl, by simp [current]⟩
  · rename_i parent current
    split
    · rename_i missing
      refine .inl ⟨rfl, fun other running => ?_⟩
      rw [current] at running
      cases running
      exact missing
    · rename_i i found
      have holds := List.find?_some found
      have inside := List.mem_range.mp (List.mem_of_find?_eq_some found)
      simp only [waitsFor, Bool.and_eq_true, decide_eq_true_eq, beq_iff_eq, Bool.not_eq_true',
        Bool.and_eq_false_iff, decide_eq_false_iff_not, bne_eq_false_iff_eq] at holds
      obtain ⟨⟨⟨live, child⟩, named⟩, zombie⟩ := holds
      refine .inr ⟨parent, i, _, current, found, entries_live inside live, child, ?_, ?_, rfl, rfl,
        rfl, rfl, entries_set s inside _⟩
      · exact decide_eq_true zombie
      · exact named.imp_left (by omega)

theorem processSignal_entries (s : Processes) (pid : Nat) (sig : Int) :
    (processSignal s pid sig).2.entries = s.entries ∧
      (processSignal s pid sig).2.nextPid = s.nextPid ∧
      (processSignal s pid sig).2.currentPid = s.currentPid := by
  unfold processSignal
  split
  · exact ⟨rfl, rfl, rfl⟩
  · split
    · exact ⟨rfl, rfl, rfl⟩
    · split
      · exact ⟨rfl, rfl, rfl⟩
      · refine ⟨entries_set_same ?_, rfl, rfl⟩
        unfold Process.procEntry
        dsimp only
        split
        · rename_i stopped
          simp [stopped.2]
        · rfl

theorem processReparentChildren_entries (s : Processes) (pid : Nat) :
    (processReparentChildren s pid).entries = fun j => (s.entries j).map fun entry =>
      { entry with ppid := if entry.ppid = pid then 1 else entry.ppid } := by
  funext j
  simp only [Processes.entries, Process.procEntry, processReparentChildren]
  by_cases inside : j < maxProcesses
  · by_cases dead : (s.table j).state = .unused
    · simp [inside, dead]
    · by_cases child : (s.table j).ppid = pid
      · simp [inside, dead, child]
      · simp [inside, dead, child]
  · simp [inside]

/-- `process_exit` makes the process a zombie and hands its children over to process 1. -/
theorem processExit_entries (s : Processes) (status : Int) :
    (processExit s status = s ∧ ∀ i, processCurrent s = some i → (s.table i).pid ≤ 1) ∨
      ∃ i, processCurrent s = some i ∧ 1 < (s.table i).pid ∧
        (processExit s status).nextPid = s.nextPid ∧
        (processExit s status).currentPid = s.currentPid ∧
        (processExit s status).entries = fun j => (s.entries j).map fun entry =>
          { pid := entry.pid
            ppid := if entry.ppid = (s.table i).pid then 1 else entry.ppid
            zombie := if j = i then true else entry.zombie
            exitCode := if j = i then status else entry.exitCode } := by
  unfold processExit
  split
  · rename_i current
    exact .inl ⟨rfl, by simp [current]⟩
  · rename_i i current
    dsimp only
    split
    · rename_i low
      refine .inl ⟨rfl, fun j running => ?_⟩
      rw [current] at running
      cases running
      exact low
    · rename_i high
      obtain ⟨inside, live, _⟩ := processGet_some current
      generalize marked : s.set i { s.table i with exitCode := status } = exiting
      generalize orphaned : processReparentChildren exiting (s.table i).pid = reparented
      obtain ⟨signalled, next, running⟩ :=
        processSignal_entries reparented (reparented.table i).ppid sigchld
      have entries : reparented.entries = fun j => (exiting.entries j).map fun entry =>
          { entry with ppid := if entry.ppid = (s.table i).pid then 1 else entry.ppid } := by
        rw [← orphaned]
        exact processReparentChildren_entries exiting _
      rw [← signalled] at entries
      have nextOrphaned : reparented.nextPid = s.nextPid := by rw [← orphaned, ← marked]; rfl
      have runningOrphaned : reparented.currentPid = s.currentPid := by
        rw [← orphaned, ← marked]; rfl
      have exitingEntries : exiting.entries = Function.update s.entries i
          (some ⟨(s.table i).pid, (s.table i).ppid, decide ((s.table i).state = .zombie),
            status⟩) := by
        rw [← marked, entries_set s inside, Process.procEntry, if_neg live]
      generalize (processSignal reparented (reparented.table i).ppid sigchld).2 = result at *
      refine .inr ⟨i, current, by omega, next.trans nextOrphaned, running.trans runningOrphaned, ?_⟩
      rw [entries_set result inside]
      funext j
      by_cases same : j = i
      · subst same
        have own := congrFun entries j
        rw [exitingEntries, Function.update_self] at own
        obtain ⟨_, _, pid, ppid, _, code⟩ := entries_some own
        rw [Function.update_self, entries_live inside live, Process.procEntry, if_neg (by simp)]
        dsimp only at pid ppid code
        simp [pid, ppid, code]
      · rw [Function.update_of_ne same, entries, exitingEntries]
        simp [same]

/-- `sys_exit` removes its process, and its children keep it for their parent. -/
theorem sysExit_entries (s : Processes) :
    ((sysExit s).entries = s.entries ∧ (sysExit s).nextPid = s.nextPid ∧
        ∀ i, processCurrent s = some i → (s.table i).pid ≤ 1) ∨
      ∃ i, processCurrent s = some i ∧ 1 < (s.table i).pid ∧
        (sysExit s).nextPid = s.nextPid ∧
        (sysExit s).entries = Function.update s.entries i none := by
  cases current : processCurrent s with
  | none =>
      rw [sysExit_none current]
      exact .inl ⟨rfl, rfl, by simp⟩
  | some i =>
      obtain ⟨inside, _, _⟩ := processGet_some current
      rw [sysExit_eq current]
      by_cases user : 1 < (s.table i).pid
      · rw [if_pos user]
        exact .inr ⟨i, rfl, user, rfl, entries_set s inside _⟩
      · rw [if_neg user]
        refine .inl ⟨entries_set_same rfl, rfl, fun j running => ?_⟩
        cases running
        exact Nat.not_lt.mp user

end Calls

end ZurichOS
