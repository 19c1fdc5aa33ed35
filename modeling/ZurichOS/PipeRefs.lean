import Mathlib.Algebra.Order.BigOperators.Group.Finset
import ZurichOS.Pipe

set_option linter.all false

/-!
The descriptors of pipes in the process table: how many there are of each end of a pipe,
and what the calls of `process.c` and `syscall.c` do to them.
-/

namespace ZurichOS

/-- The descriptor is open and refers to a pipe. -/
def FdEntry.holdsPipe (entry : FdEntry) : Prop :=
  entry.inUse = true ∧ 0 ≤ entry.pipeId ∧ entry.pipeId < maxPipes

instance (entry : FdEntry) : Decidable entry.holdsPipe := inferInstanceAs (Decidable (_ ∧ _))

/-- 1 for an open descriptor of that end of the pipe `id`, told apart as `pipe_close` does. -/
def entryRefs (id : Nat) (reading : Bool) (entry : FdEntry) : Nat :=
  if entry.inUse = true ∧ entry.pipeId = id ∧ decide (entry.flags = 0) = reading then 1 else 0

def processRefs (id : Nat) (reading : Bool) (proc : Process) : Nat :=
  if proc.state = .unused then 0
  else ∑ fd ∈ Finset.range maxFdsPerProc, entryRefs id reading (proc.fdTable fd)

/-- The open descriptors of that end of the pipe `id`, of all processes. -/
def descriptorRefs (id : Nat) (reading : Bool) (table : Nat → Process) : Nat :=
  ∑ i ∈ Finset.range maxProcesses, processRefs id reading (table i)

/-- Pipes lie behind descriptors from 3 on, and these are not closed on exec. -/
def PipeFds (table : Nat → Process) : Prop :=
  ∀ i, (table i).state ≠ .unused → ∀ fd, ((table i).fdTable fd).holdsPipe →
    3 ≤ fd ∧ fd < maxFdsPerProc ∧ ((table i).fdTable fd).flags ≤ 1

def ForkCounted (s : Processes) : Prop :=
  ∀ parent, processCurrent s = some parent →
    let (childPid, s) := processCreate s (s.table parent).name (s.table parent).pid
    childPid ≠ 0 → ∀ child, processGet s childPid = some child →
      ∀ id < maxPipes, ∀ reading,
        processRefs id reading (s.table parent) = processRefs id reading (s.table child)

section Counting

theorem sum_change {bound index : Nat} (inside : index < bound) (before after : Nat → Nat)
    (same : ∀ other, other ≠ index → after other = before other) :
    ∑ i ∈ Finset.range bound, after i + before index =
      ∑ i ∈ Finset.range bound, before i + after index := by
  have member := Finset.mem_range.mpr inside
  have splitAfter := Finset.add_sum_erase (Finset.range bound) after member
  have splitBefore := Finset.add_sum_erase (Finset.range bound) before member
  have others : ∑ i ∈ (Finset.range bound).erase index, after i =
      ∑ i ∈ (Finset.range bound).erase index, before i :=
    Finset.sum_congr rfl fun i member => same i (Finset.ne_of_mem_erase member)
  omega

theorem descriptorRefs_set (id : Nat) (reading : Bool) (table : Nat → Process) {index : Nat}
    (inside : index < maxProcesses) (proc : Process) :
    descriptorRefs id reading (Function.update table index proc) +
        processRefs id reading (table index) =
      descriptorRefs id reading table + processRefs id reading proc := by
  have change := sum_change inside (fun i => processRefs id reading (table i))
    (fun i => processRefs id reading (Function.update table index proc i))
    fun other apart => by rw [Function.update_of_ne apart]
  simpa [descriptorRefs] using change

theorem processRefs_setFd (id : Nat) (reading : Bool) {proc : Process}
    (live : proc.state ≠ .unused) {fd : Nat} (inside : fd < maxFdsPerProc) (entry : FdEntry) :
    processRefs id reading (proc.setFd fd entry) + entryRefs id reading (proc.fdTable fd) =
      processRefs id reading proc + entryRefs id reading entry := by
  have change := sum_change inside (fun fd => entryRefs id reading (proc.fdTable fd))
    (fun other => entryRefs id reading (Function.update proc.fdTable fd entry other))
    fun other apart => by rw [Function.update_of_ne apart]
  simpa [processRefs, Process.setFd, live] using change

variable {id : Nat} {reading : Bool}

theorem entryRefs_none {entry : FdEntry} (free : ¬ entry.holdsPipe) (bound : id < maxPipes) :
    entryRefs id reading entry = 0 := by
  refine if_neg fun ⟨inUse, isId, _⟩ => free ⟨inUse, ?_, ?_⟩
  · omega
  · omega

theorem entryRefs_closed {entry : FdEntry} (closed : entry.inUse = false) :
    entryRefs id reading entry = 0 := by
  simp [entryRefs, closed]

theorem holdsPipe_iff {entry : FdEntry} :
    entry.holdsPipe ↔ ∃ id < maxPipes, ∃ reading, entryRefs id reading entry = 1 := by
  constructor
  · rintro ⟨inUse, lower, upper⟩
    refine ⟨entry.pipeId.toNat, by omega, decide (entry.flags = 0), if_pos ⟨inUse, by omega, rfl⟩⟩
  · rintro ⟨id, bound, reading, one⟩
    by_contra free
    rw [entryRefs_none free bound] at one
    cases one

theorem entryRefs_le_processRefs {proc : Process} (live : proc.state ≠ .unused) {fd : Nat}
    (inside : fd < maxFdsPerProc) :
    entryRefs id reading (proc.fdTable fd) ≤ processRefs id reading proc := by
  rw [processRefs, if_neg live]
  exact Finset.single_le_sum (f := fun fd => entryRefs id reading (proc.fdTable fd))
    (fun _ _ => Nat.zero_le _) (Finset.mem_range.mpr inside)

end Counting

/-- The entry of a process's table behind which a pipe lies. -/
def Process.pipeEntry (proc : Process) (fd : Nat) : Option FdEntry :=
  if proc.state ≠ .unused ∧ (proc.fdTable fd).holdsPipe then some (proc.fdTable fd) else none

/-- Two process tables with the same descriptors of pipes. -/
def Quiet (before after : Nat → Process) : Prop :=
  ∀ i fd, (after i).pipeEntry fd = (before i).pipeEntry fd

section Quiet

variable {before after last table : Nat → Process} {proc : Process} {index : Nat}

theorem processRefs_pipeEntry {id : Nat} (bound : id < maxPipes) (reading : Bool)
    (proc : Process) : processRefs id reading proc = ∑ fd ∈ Finset.range maxFdsPerProc,
      ((proc.pipeEntry fd).map (entryRefs id reading)).getD 0 := by
  unfold processRefs Process.pipeEntry
  by_cases dead : proc.state = .unused
  · simp [dead]
  · rw [if_neg dead]
    refine Finset.sum_congr rfl fun fd _ => ?_
    by_cases holds : (proc.fdTable fd).holdsPipe
    · simp [dead, holds]
    · simp [holds, entryRefs_none holds bound]

theorem pipeFds_iff : PipeFds table ↔
    ∀ i fd entry, (table i).pipeEntry fd = some entry →
      3 ≤ fd ∧ fd < maxFdsPerProc ∧ entry.flags ≤ 1 := by
  unfold PipeFds Process.pipeEntry
  constructor
  · intro fds i fd entry some
    split at some
    · rename_i holds
      cases some
      exact fds i holds.1 fd holds.2
    · cases some
  · exact fun all i live fd holds => all i fd _ (if_pos ⟨live, holds⟩)

theorem Quiet.trans (first : Quiet before after) (second : Quiet after last) : Quiet before last :=
  fun i fd => (second i fd).trans (first i fd)

theorem Quiet.refl (table : Nat → Process) : Quiet table table := fun _ _ => rfl

theorem Quiet.refs (quiet : Quiet before after) {id : Nat} (bound : id < maxPipes)
    (reading : Bool) : descriptorRefs id reading after = descriptorRefs id reading before := by
  refine Finset.sum_congr rfl fun i _ => ?_
  rw [processRefs_pipeEntry bound, processRefs_pipeEntry bound]
  exact Finset.sum_congr rfl fun fd _ => by rw [quiet i fd]

theorem Quiet.fds (quiet : Quiet before after) (fds : PipeFds before) : PipeFds after :=
  pipeFds_iff.mpr fun i fd entry some => pipeFds_iff.mp fds i fd entry (quiet i fd ▸ some)

theorem Quiet.set (same : ∀ fd, proc.pipeEntry fd = (table index).pipeEntry fd) :
    Quiet table (Function.update table index proc) := fun i fd => by
  by_cases own : i = index
  · subst own
    rw [Function.update_self]
    exact same fd
  · rw [Function.update_of_ne own]

theorem pipeEntry_congr {proc other : Process} {fd : Nat}
    (live : proc.state = .unused ↔ other.state = .unused)
    (same : proc.fdTable fd = other.fdTable fd) : proc.pipeEntry fd = other.pipeEntry fd := by
  simp [Process.pipeEntry, same, live]

/-- Two process tables with the same descriptors and the same processes in use. -/
def Stable (before after : Nat → Process) : Prop :=
  ∀ i, (after i).fdTable = (before i).fdTable ∧
    ((after i).state = .unused ↔ (before i).state = .unused)

theorem Stable.refl (table : Nat → Process) : Stable table table := fun _ => ⟨rfl, Iff.rfl⟩

theorem Stable.trans (first : Stable before after) (second : Stable after last) :
    Stable before last := fun i =>
  ⟨(second i).1.trans (first i).1, (second i).2.trans (first i).2⟩

theorem Stable.set (fds : proc.fdTable = (table index).fdTable)
    (live : proc.state = .unused ↔ (table index).state = .unused) :
    Stable table (Function.update table index proc) := fun i => by
  by_cases own : i = index
  · subst own
    rw [Function.update_self]
    exact ⟨fds, live⟩
  · rw [Function.update_of_ne own]
    exact ⟨rfl, Iff.rfl⟩

theorem Stable.quiet (stable : Stable before after) : Quiet before after := fun i fd =>
  pipeEntry_congr (stable i).2 (congrFun (stable i).1 fd)

theorem pipeEntry_none {proc : Process} {fd : Nat} (free : ¬ (proc.fdTable fd).holdsPipe) :
    proc.pipeEntry fd = none := if_neg fun holds => free holds.2

theorem pipeEntry_dead {proc : Process} (dead : proc.state = .unused) (fd : Nat) :
    proc.pipeEntry fd = none := if_neg fun holds => holds.1 dead

def freshFds : Nat → FdEntry := (initProcessFdTable Process.zero).fdTable

/-- Every process keeps its descriptors, apart from new ones with fresh tables. -/
def Spawned (before after : Nat → Process) : Prop :=
  ∀ i, ((after i).fdTable = (before i).fdTable ∧
      ((after i).state = .unused ↔ (before i).state = .unused)) ∨
    ((before i).state = .unused ∧ (after i).fdTable = freshFds)

theorem Stable.spawned (stable : Stable before after) : Spawned before after :=
  fun i => .inl (stable i)

theorem Spawned.stable (spawned : Spawned before after) (stable : Stable after last) :
    Spawned before last := fun i => by
  rcases spawned i with ⟨fds, live⟩ | ⟨dead, fresh⟩
  · exact .inl ⟨(stable i).1.trans fds, (stable i).2.trans live⟩
  · exact .inr ⟨dead, (stable i).1.trans fresh⟩

theorem Spawned.live (spawned : Spawned before after) {i : Nat}
    (live : (before i).state ≠ .unused) : (after i).fdTable = (before i).fdTable :=
  (spawned i).elim And.left fun dead => absurd dead.1 live

theorem Spawned.quiet (spawned : Spawned before after) : Quiet before after := fun i fd => by
  rcases spawned i with ⟨fds, live⟩ | ⟨dead, fresh⟩
  · exact pipeEntry_congr live (congrFun fds fd)
  · rw [pipeEntry_dead dead, pipeEntry_none]
    rintro ⟨_, lower, _⟩
    rw [fresh] at lower
    change (0 : Int) ≤ -1 at lower
    omega

/-- The process `index` has lost its descriptors of pipes, and nothing else has changed. -/
def Dropped (index : Nat) (before after : Nat → Process) : Prop :=
  ∀ i fd, (after i).pipeEntry fd = if i = index then none else (before i).pipeEntry fd

theorem Dropped.fds (dropped : Dropped index before after) (fds : PipeFds before) :
    PipeFds after := pipeFds_iff.mpr fun i fd entry some => by
  rw [dropped i fd] at some
  split at some
  · cases some
  · exact pipeFds_iff.mp fds i fd entry some

theorem Dropped.refs (dropped : Dropped index before after) (inside : index < maxProcesses)
    {id : Nat} (bound : id < maxPipes) (reading : Bool) :
    descriptorRefs id reading after + processRefs id reading (before index) =
      descriptorRefs id reading before := by
  have change := sum_change inside (fun i => processRefs id reading (before i))
    (fun i => processRefs id reading (after i)) fun i apart => by
      rw [processRefs_pipeEntry bound, processRefs_pipeEntry bound]
      exact Finset.sum_congr rfl fun fd _ => by rw [dropped i fd, if_neg apart]
  have none : processRefs id reading (after index) = 0 := by
    rw [processRefs_pipeEntry bound]
    exact Finset.sum_eq_zero fun fd _ => by rw [dropped index fd, if_pos rfl]; rfl
  simp only [none, Nat.add_zero] at change
  exact change

end Quiet

section Updates

theorem pipeFds_update {table : Nat → Process} (fds : PipeFds table) {i : Nat} {proc : Process}
    (own : ∀ fd, (proc.fdTable fd).holdsPipe →
      3 ≤ fd ∧ fd < maxFdsPerProc ∧ (proc.fdTable fd).flags ≤ 1) :
    PipeFds (Function.update table i proc) := fun j live fd holds => by
  by_cases same : j = i
  · rw [same, Function.update_self] at holds ⊢
    exact own fd holds
  · rw [Function.update_of_ne same] at live holds ⊢
    exact fds j live fd holds

theorem pipeFds_closed {table : Nat → Process} (fds : PipeFds table) {i fd : Nat} {entry : FdEntry}
    (live : (table i).state ≠ .unused) (closed : entry.inUse = false) :
    PipeFds (Function.update table i ((table i).setFd fd entry)) :=
  pipeFds_update fds fun other holds => by
    by_cases same : other = fd
    · subst same
      simp [Process.setFd, FdEntry.holdsPipe, closed] at holds
    · simp only [Process.setFd, Function.update_of_ne same] at holds ⊢
      exact fds i live other holds

theorem open_refs {table : Nat → Process} {i : Nat} (inside : i < maxProcesses)
    (live : (table i).state ≠ .unused) {readFd writeFd : Nat} (readHigh : readFd < maxFdsPerProc)
    (writeHigh : writeFd < maxFdsPerProc) (readFree : ((table i).fdTable readFd).inUse = false)
    (writeFree : ((table i).fdTable writeFd).inUse = false) (apart : writeFd ≠ readFd)
    (reader writer : FdEntry) (id : Nat) (reading : Bool) :
    descriptorRefs id reading
        (Function.update table i (((table i).setFd readFd reader).setFd writeFd writer)) =
      descriptorRefs id reading table + entryRefs id reading reader +
        entryRefs id reading writer := by
  have moved := descriptorRefs_set id reading table inside
    (((table i).setFd readFd reader).setFd writeFd writer)
  have first := processRefs_setFd id reading live readHigh reader
  have second := @processRefs_setFd id reading ((table i).setFd readFd reader) live writeFd writeHigh
    writer
  have same : ((table i).setFd readFd reader).fdTable writeFd = (table i).fdTable writeFd :=
    Function.update_of_ne apart ..
  rw [same, entryRefs_closed writeFree] at second
  rw [entryRefs_closed readFree] at first
  omega

theorem close_refs {table : Nat → Process} {i fd : Nat} (inside : i < maxProcesses)
    (live : (table i).state ≠ .unused) (high : fd < maxFdsPerProc) (entry : FdEntry)
    (closed : entry.inUse = false) (id : Nat) (reading : Bool) :
    descriptorRefs id reading (Function.update table i ((table i).setFd fd entry)) +
        entryRefs id reading ((table i).fdTable fd) = descriptorRefs id reading table := by
  have moved := descriptorRefs_set id reading table inside
    ((table i).setFd fd entry)
  have first := processRefs_setFd id reading live high entry
  rw [entryRefs_closed closed] at first
  omega

end Updates

section Processes

variable {s : Processes}

@[simp] theorem set_table (s : Processes) (index : Nat) (proc : Process) :
    (s.set index proc).table = Function.update s.table index proc := rfl

theorem processGet_some {pid i : Nat} (found : processGet s pid = some i) :
    i < maxProcesses ∧ (s.table i).state ≠ .unused ∧ (s.table i).pid = pid := by
  have hit := List.find?_some found
  have member := List.mem_of_find?_eq_some found
  simp only [Bool.and_eq_true, decide_eq_true_eq, beq_iff_eq] at hit
  exact ⟨List.mem_range.mp member, hit⟩

theorem processCreate_spawned (s : Processes) (name : List Char) (ppid : Nat) :
    Spawned s.table (processCreate s name ppid).2.table := by
  unfold processCreate
  split
  · exact (Stable.refl _).spawned
  · rename_i slot found
    have dead : (s.table slot).state = .unused := by simpa using List.find?_some found
    intro i
    by_cases own : i = slot
    · subst own
      exact .inr ⟨dead, by simp only [set_table, Function.update_self]; rfl⟩
    · refine .inl ?_
      rw [set_table, Function.update_of_ne own]
      exact ⟨rfl, Iff.rfl⟩

theorem processCreate_quiet (s : Processes) (name : List Char) (ppid : Nat) :
    Quiet s.table (processCreate s name ppid).2.table :=
  (processCreate_spawned s name ppid).quiet

theorem processSignal_stable (s : Processes) (pid : Nat) (sig : Int) :
    Stable s.table (processSignal s pid sig).2.table := by
  unfold processSignal
  split
  · exact .refl _
  · split
    · exact .refl _
    · split
      · exact .refl _
      · refine Stable.set rfl ?_
        dsimp only
        split
        · rename_i stopped
          simp [stopped.2]
        · rfl

theorem processReparentChildren_stable (s : Processes) (pid : Nat) :
    Stable s.table (processReparentChildren s pid).table := fun i => by
  constructor <;> simp only [processReparentChildren] <;> split <;> rfl

theorem processExit_stable (s : Processes) (status : Int) :
    Stable s.table (processExit s status).table := by
  unfold processExit
  split
  · exact .refl _
  · rename_i i found
    have live := (processGet_some found).2.1
    dsimp only
    split
    · exact .refl _
    · have marked : Stable s.table (s.set i { s.table i with exitCode := status }).table :=
        Stable.set rfl Iff.rfl
      have orphaned := marked.trans (processReparentChildren_stable _ (s.table i).pid)
      refine (orphaned.trans (processSignal_stable _ _ sigchld)).trans (Stable.set rfl ?_)
      refine iff_of_false (by simp) fun dead => live ?_
      exact ((orphaned.trans (processSignal_stable _ _ sigchld)) i).2.mp dead

theorem closeOnExec_quiet (s : Processes) {i : Nat} {proc : Process} (fds : PipeFds s.table)
    (same : proc.fdTable = (s.table i).fdTable) (live : proc.state = (s.table i).state) :
    Quiet s.table (s.set i (closeOnExec proc)).table := by
  refine Quiet.set fun fd => ?_
  by_cases marked : 3 ≤ fd ∧ fd < maxFdsPerProc ∧ (proc.fdTable fd).inUse ∧
      (proc.fdTable fd).flags &&& fdCloseOnExec ≠ 0
  · have closed : ((closeOnExec proc).fdTable fd).inUse = false := by simp [closeOnExec, marked]
    rw [pipeEntry_none fun holds => Bool.false_ne_true (closed.symm.trans holds.1)]
    refine (if_neg fun holds => marked.2.2.2 ?_).symm
    have small := (fds i holds.1 fd holds.2).2.2
    rw [same]
    rcases Nat.le_one_iff_eq_zero_or_eq_one.mp small with zero | one
    · rw [zero]
      rfl
    · rw [one]
      rfl
  · have kept : (closeOnExec proc).fdTable fd = proc.fdTable fd := if_neg marked
    exact pipeEntry_congr (by rw [← live]; rfl) (kept.trans (congrFun same fd))

theorem elfRegister_spawned (s : Processes) (name : List Char) (kernelStack elf : Nat) :
    Spawned s.table (elfRegister s name kernelStack elf).table := by
  unfold elfRegister
  have created := processCreate_spawned s name 1
  dsimp only
  split
  · split
    · exact created
    · exact created.stable (Stable.set rfl Iff.rfl)
  · exact created

theorem elfRegister_quiet (s : Processes) (name : List Char) (kernelStack elf : Nat) :
    Quiet s.table (elfRegister s name kernelStack elf).table :=
  (elfRegister_spawned s name kernelStack elf).quiet

theorem processExec_quiet (s : Processes) (fds : PipeFds s.table) (path : List Char)
    (elf : Option ElfImage) (kernelStack : Nat) :
    Quiet s.table (processExec s path elf kernelStack).2.table := by
  unfold processExec
  split
  · exact .refl _
  · split
    · exact .refl _
    · refine Quiet.trans ?_ (elfRegister_quiet _ _ _ _)
      exact closeOnExec_quiet s fds rfl rfl

theorem processGet_congr {other : Processes} (pid : Nat)
    (same : ∀ i, (other.table i).state = (s.table i).state ∧ (other.table i).pid = (s.table i).pid) :
    processGet other pid = processGet s pid := by
  unfold processGet
  refine congrArg (fun hit => List.find? hit _) (funext fun i => ?_)
  rw [(same i).1, (same i).2]

theorem processCurrent_set {i : Nat} {proc : Process} (state : proc.state = (s.table i).state)
    (pid : proc.pid = (s.table i).pid) : processCurrent (s.set i proc) = processCurrent s := by
  refine processGet_congr _ fun j => ?_
  by_cases own : j = i
  · subst own
    simp [Processes.set, state, pid]
  · simp [Processes.set, own]

def FdEntry.freed (entry : FdEntry) : FdEntry :=
  { entry with node := none, offset := 0, flags := 0, inUse := false }

/-- The table after the first `count` rounds of the loop of `sys_exit`. -/
def Process.freeBelow (proc : Process) (count : Nat) : Process :=
  { proc with fdTable := fun fd =>
      if 3 ≤ fd ∧ fd < count ∧ (proc.fdTable fd).inUse then (proc.fdTable fd).freed
      else proc.fdTable fd }

theorem freeBelow_succ (proc : Process) (count : Nat) :
    proc.freeBelow (count + 1) =
      if 3 ≤ count ∧ ((proc.freeBelow count).fdTable count).inUse then
        (proc.freeBelow count).setFd count ((proc.freeBelow count).fdTable count).freed
      else proc.freeBelow count := by
  have own : (proc.freeBelow count).fdTable count = proc.fdTable count := if_neg (by omega)
  rw [own]
  split
  · rename_i frees
    refine congrArg (fun fdTable => { proc with fdTable }) (funext fun fd => ?_)
    by_cases same : fd = count
    · subst same
      rw [Function.update_self, if_pos ⟨frees.1, by omega, frees.2⟩]
    · rw [Function.update_of_ne same]
      exact if_congr ⟨fun ⟨lower, upper, inUse⟩ => ⟨lower, by omega, inUse⟩,
        fun ⟨lower, upper, inUse⟩ => ⟨lower, by omega, inUse⟩⟩ rfl rfl
  · rename_i kept
    refine congrArg (fun fdTable => { proc with fdTable }) (funext fun fd => ?_)
    by_cases same : fd = count
    · subst same
      rw [if_neg (fun frees => kept ⟨frees.1, frees.2.2⟩), if_neg (by omega)]
    · exact if_congr ⟨fun ⟨lower, upper, inUse⟩ => ⟨lower, by omega, inUse⟩,
        fun ⟨lower, upper, inUse⟩ => ⟨lower, by omega, inUse⟩⟩ rfl rfl

theorem freeFds_eq {i : Nat} (current : processCurrent s = some i) :
    freeFds s = s.set i ((s.table i).freeBelow maxFdsPerProc) := by
  suffices rounds : ∀ count ≤ maxFdsPerProc, (List.range count).foldl freeFdInUse s =
      s.set i ((s.table i).freeBelow count) from rounds _ (Nat.le_refl _)
  intro count bound
  induction count with
  | zero =>
      have none : (s.table i).freeBelow 0 = s.table i := by simp [Process.freeBelow]
      simp [none, Processes.set]
  | succ count ih =>
      have same : processCurrent (s.set i ((s.table i).freeBelow count)) = some i :=
        (processCurrent_set (by rfl) (by rfl)).trans current
      have own : (s.set i ((s.table i).freeBelow count)).table i = (s.table i).freeBelow count :=
        Function.update_self ..
      rw [List.range_succ, List.foldl_append, ih (by omega)]
      simp only [List.foldl_cons, List.foldl_nil, freeFdInUse, same, own]
      rw [freeBelow_succ]
      split
      · rename_i frees
        have inside : 3 ≤ (count : Int) ∧ (count : Int) < maxFdsPerProc := by omega
        simp only [freeFd, same, own]
        rw [if_pos inside]
        simp [Processes.set, FdEntry.freed]
      · rfl

theorem freeFds_drops (fds : PipeFds s.table) {i : Nat} (current : processCurrent s = some i) :
    Dropped i s.table (freeFds s).table := by
  rw [freeFds_eq current]
  intro j fd
  by_cases own : j = i
  · subst own
    rw [if_pos rfl, set_table, Function.update_self]
    by_cases frees : 3 ≤ fd ∧ fd < maxFdsPerProc ∧ ((s.table j).fdTable fd).inUse
    · have closed : (((s.table j).freeBelow maxFdsPerProc).fdTable fd).inUse = false := by
        simp [Process.freeBelow, frees, FdEntry.freed]
      exact pipeEntry_none fun holds => Bool.false_ne_true (closed.symm.trans holds.1)
    · have kept : ((s.table j).freeBelow maxFdsPerProc).fdTable fd = (s.table j).fdTable fd :=
        if_neg frees
      refine pipeEntry_none fun holds => frees ?_
      rw [kept] at holds
      obtain ⟨lower, upper, _⟩ := fds j (processGet_some current).2.1 fd holds
      exact ⟨lower, upper, holds.1⟩
  · rw [if_neg own, set_table, Function.update_of_ne own]

theorem set_set (s : Processes) (i : Nat) (proc next : Process) :
    (s.set i proc).set i next = s.set i next := by
  simp [Processes.set]

theorem set_self (s : Processes) (i : Nat) (proc : Process) : (s.set i proc).table i = proc :=
  Function.update_self ..

theorem processKill_current {i : Nat} (proc : Process) (current : processCurrent s = some i)
    (state : proc.state = (s.table i).state) (pid : proc.pid = (s.table i).pid)
    (user : 1 < proc.pid) :
    (processKill (s.set i proc) proc.pid).2 = s.set i { proc with state := .unused } := by
  have found : processGet (s.set i proc) proc.pid = some i := by
    rw [pid, (processGet_some current).2.2]
    exact (processCurrent_set state pid).trans current
  unfold processKill
  rw [if_neg (by omega), if_neg (by omega), found]
  simp only [set_set, set_self]

/-- `sys_exit` frees the descriptors of its process, and ends it unless it is the shell or
the kernel. -/
theorem sysExit_eq {i : Nat} (current : processCurrent s = some i) :
    sysExit s = processSetCurrent (s.set i (if 1 < (s.table i).pid then
      { (s.table i).freeBelow maxFdsPerProc with
        state := .unused, kernelStack := 0, elfProc := none }
      else (s.table i).freeBelow maxFdsPerProc)) 1 := by
  have freed : processCurrent (s.set i ((s.table i).freeBelow maxFdsPerProc)) = some i :=
    (processCurrent_set (by rfl) (by rfl)).trans current
  have ownPid : ((s.table i).freeBelow maxFdsPerProc).pid = (s.table i).pid := rfl
  unfold sysExit
  simp only [freeFds_eq current, freed, set_self, set_set, ownPid]
  by_cases user : 1 < (s.table i).pid
  · rw [if_pos user, if_pos user]
    exact congrArg (processSetCurrent · 1) <| processKill_current
      { (s.table i).freeBelow maxFdsPerProc with kernelStack := 0, elfProc := none } current
      rfl rfl user
  · rw [if_neg user, if_neg user]

theorem sysExit_table {i : Nat} (current : processCurrent s = some i) :
    ∃ proc, (sysExit s).table = Function.update s.table i proc ∧
      proc.fdTable = ((s.table i).freeBelow maxFdsPerProc).fdTable ∧
      proc.state = (if 1 < (s.table i).pid then .unused else (s.table i).state) ∧
      (proc.kernelStack, proc.elfProc) = if 1 < (s.table i).pid then (0, none)
        else ((s.table i).kernelStack, (s.table i).elfProc) := by
  rw [sysExit_eq current]
  refine ⟨_, rfl, ?_⟩
  by_cases user : 1 < (s.table i).pid
  · simp only [if_pos user, and_self]
  · simp only [if_neg user]
    exact ⟨trivial, rfl, rfl⟩

/-- `sys_exit` leaves its process no descriptor of a pipe. -/
theorem sysExit_drops (fds : PipeFds s.table) {i : Nat} (current : processCurrent s = some i) :
    Dropped i s.table (sysExit s).table := by
  obtain ⟨proc, after, same, _, _⟩ := sysExit_table current
  have dropped := freeFds_drops fds current
  intro j fd
  rw [after]
  by_cases own : j = i
  · subst own
    rw [if_pos rfl, Function.update_self]
    have none := dropped j fd
    rw [if_pos rfl, freeFds_eq current, set_table, Function.update_self] at none
    refine pipeEntry_none fun holds => ?_
    rw [same] at holds
    have live : ((s.table j).freeBelow maxFdsPerProc).state ≠ .unused :=
      (processGet_some current).2.1
    have some : Process.pipeEntry _ fd = some _ := if_pos ⟨live, holds⟩
    exact Option.some_ne_none _ (some.symm.trans none)
  · rw [if_neg own, Function.update_of_ne own]

theorem freeFds_none (current : processCurrent s = none) : freeFds s = s := by
  unfold freeFds
  induction List.range maxFdsPerProc with
  | nil => rfl
  | cons fd rest ih => simpa [freeFdInUse, current] using ih

theorem sysExit_none (current : processCurrent s = none) :
    sysExit s = processSetCurrent s 1 := by
  simp only [sysExit, freeFds_none current, current]

theorem freeFd_table {i fd : Nat} (current : processCurrent s = some i) (lower : 3 ≤ fd)
    (upper : fd < maxFdsPerProc) : (freeFd s fd).table =
      Function.update s.table i ((s.table i).setFd fd ((s.table i).fdTable fd).freed) := by
  have inside : 3 ≤ (fd : Int) ∧ (fd : Int) < maxFdsPerProc := by omega
  simp only [freeFd, current]
  rw [if_pos inside]
  rfl

theorem sysClose_cases (s : Processes) (fd : Nat) :
    ((sysClose s fd).2 = s ∧ ∀ i, processCurrent s = some i → fd < maxFdsPerProc →
        fd < 3 ∨ ((s.table i).fdTable fd).inUse = false) ∨
      ∃ i, processCurrent s = some i ∧ 3 ≤ fd ∧ fd < maxFdsPerProc ∧
        (sysClose s fd).2.table =
          Function.update s.table i ((s.table i).setFd fd ((s.table i).fdTable fd).freed) := by
  unfold sysClose
  split
  · rename_i small
    exact .inl ⟨rfl, fun _ _ _ => .inl small⟩
  · split
    · rename_i current
      exact .inl ⟨rfl, by simp [current]⟩
    · rename_i i current
      split
      · rename_i refused
        refine .inl ⟨rfl, fun j running upper => .inr ?_⟩
        obtain rfl : i = j := Option.some.inj (current.symm.trans running)
        exact refused.resolve_left (by omega)
      · rename_i small refused
        have upper : fd < maxFdsPerProc := by omega
        exact .inr ⟨i, current, by omega, upper, freeFd_table current (by omega) upper⟩

/-- No child comes out of a fork. -/
def ForkFails (s : Processes) : Prop :=
  ∀ parent, processCurrent s = some parent →
    let (childPid, s) := processCreate s (s.table parent).name (s.table parent).pid
    childPid ≠ 0 → processGet s childPid = none

theorem ForkFails.counted (fails : ForkFails s) : ForkCounted s :=
  fun parent current nonzero _ found =>
    absurd ((fails parent current nonzero).symm.trans found) (Option.some_ne_none _).symm

/-- A fork adds, at most, a process that takes its parent's descriptors. -/
theorem processFork_cases (s : Processes) :
    Spawned s.table (processFork s).2.table ∧ ForkFails s ∨
      ∃ parent child childPid created proc,
      processCurrent s = some parent ∧
      processCreate s (s.table parent).name (s.table parent).pid = (childPid, created) ∧
      childPid ≠ 0 ∧ processGet created childPid = some child ∧
      (processFork s).2.table = Function.update created.table child proc ∧
      (proc.state = .unused ↔ (created.table child).state = .unused) ∧
      ∀ fd, proc.fdTable fd = if fd < maxFdsPerProc then (created.table parent).fdTable fd
        else (created.table child).fdTable fd := by
  unfold processFork ForkFails
  split
  · rename_i current
    exact .inl ⟨(Stable.refl _).spawned, by simp [current]⟩
  · rename_i parent current
    have created := processCreate_spawned s (s.table parent).name (s.table parent).pid
    split
    rename_i childPid after made
    rw [made] at created
    split
    · rename_i zero
      exact .inl ⟨created, by simp [current, made, zero]⟩
    · rename_i nonzero
      split
      · rename_i missing
        exact .inl ⟨created, by simp [current, made, missing]⟩
      · rename_i child found
        exact .inr ⟨parent, child, childPid, after, _, current, made, nonzero, found, rfl, Iff.rfl,
          fun fd => rfl⟩

theorem processCreate_live (name : List Char) (ppid : Nat) {i : Nat}
    (live : (s.table i).state ≠ .unused) :
    (processCreate s name ppid).2.table i = s.table i := by
  unfold processCreate
  split
  · rfl
  · rename_i slot found
    have dead : (s.table slot).state = .unused := by simpa using List.find?_some found
    have apart : i ≠ slot := fun same => live (same ▸ dead)
    exact Function.update_of_ne apart ..

end Processes

end ZurichOS
