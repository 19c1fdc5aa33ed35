import ZurichOS.PipeCounts

set_option linter.all false

/-!
What lies behind the descriptors of all processes: a node of the file system or a live
pipe for an open one, nothing for a free one.  `sys_open` is added to the calls that open,
close and hand on descriptors.
-/

namespace ZurichOS

open Transitions

abbrev vfsOAppend : Nat := 0x0008

/-- The node that a path leads to or, with `VFS_O_CREAT`, that is created for it; its length
is that after the truncation, if there is one. -/
structure OpenNode where
  address : Nat
  directory : Bool
  length : Nat

def allocFd (s : Processes) : Option Nat × Processes :=
  match processCurrent s with
  | none => (none, s)
  | some i =>
      let proc := s.table i
      match (List.range maxFdsPerProc).find? fun fd => 3 ≤ fd && !(proc.fdTable fd).inUse with
      | none => (none, s)
      | some fd =>
          (some fd, s.set i (proc.setFd fd { proc.fdTable fd with inUse := true, offset := 0 }))

def sysOpen (s : Processes) (validPath : Bool) (node : Option OpenNode) (flags : Nat) :
    Int × Processes :=
  if validPath = false then (-14, s)
  else
    match node with
    | none => (-2, s)
    | some node =>
        if node.directory then (-21, s)
        else
          match allocFd s with
          | (none, s) => (-24, s)
          | (some fd, s) =>
              match processCurrent s with
              | none => (-9, s)
              | some i =>
                  let proc := s.table i
                  let offset := if flags &&& vfsOAppend ≠ 0 then node.length else 0
                  (fd, s.set i (proc.setFd fd
                    { proc.fdTable fd with node := some node.address, flags, offset }))

inductive DescriptorCall where
  | open (validPath : Bool) (node : Option OpenNode) (flags : Nat)
  | ipc (call : IpcCall)

def descriptorStep (s : PipeSystem) : Nat × DescriptorCall → PipeSystem
  | (pid, .open validPath node flags) =>
      (s.switch pid).withProcesses (sysOpen (s.switch pid).processes validPath node flags).2
  | (pid, .ipc call) => ipcStep s (pid, call)

/-- An open descriptor has a node or a live pipe behind it, and not both; a free one has
neither. -/
def FdEntry.Backed (pipes : Nat → Pipe) (entry : FdEntry) : Prop :=
  entry.inUse = true ∧ entry.node ≠ none ∧ entry.pipeId = -1 ∨
    entry.inUse = true ∧ entry.node = none ∧
      (∃ id : Nat, entry.pipeId = id ∧ id < maxPipes ∧ (pipes id).inUse = true) ∨
    entry.inUse = false ∧ entry.node = none ∧ entry.pipeId = -1

def TableBacked (pipes : Nat → Pipe) (table : Nat → Process) : Prop :=
  ∀ i, (table i).state ≠ .unused → ∀ fd, 3 ≤ fd → fd < maxFdsPerProc →
    ((table i).fdTable fd).Backed pipes

/-- The descriptors of all processes after the call; the call of one process leaves the
tables of the others alone. -/
structure DescriptorsSound (s : PipeSystem) (call : Nat × DescriptorCall) : Prop where
  backed : TableBacked (descriptorStep s call).pipes (descriptorStep s call).processes.table
  others : ∀ i, processCurrent (s.switch call.1).processes ≠ some i →
    (s.processes.table i).state ≠ .unused →
      ((descriptorStep s call).processes.table i).fdTable = (s.processes.table i).fdTable

/-- The entry that a fork finds by the new pid is the new one, or has its parent's
descriptors already. -/
def ForkFresh (s : Processes) : Prop :=
  ∀ parent, processCurrent s = some parent →
    let (childPid, created) := processCreate s (s.table parent).name (s.table parent).pid
    childPid ≠ 0 → ∀ child, processGet created childPid = some child →
      (s.table child).state = .unused ∨
        ∀ fd < maxFdsPerProc, (s.table parent).fdTable fd = (s.table child).fdTable fd

/-- `pipe_close` destroys a pipe only with its last descriptor. -/
def LastDescriptor (s : PipeSystem) (fd : Int) : Prop :=
  ∀ i entry, openDescriptor s fd = some (i, entry) →
    ∀ id : Nat, entry.pipeId = id → id < maxPipes → (s.pipes id).inUse = true →
      ((s.pipes id).giveBack entry.flags).inUse = false →
        ∀ j, (s.processes.table j).state ≠ .unused → ∀ other, 3 ≤ other →
          other < maxFdsPerProc → (j, other) ≠ (i, fd.toNat) →
            ¬ (((s.processes.table j).fdTable other).inUse = true ∧
              ((s.processes.table j).fdTable other).pipeId = id)

def DescriptorCareful (s : PipeSystem) : Nat × DescriptorCall → Prop
  | (pid, .ipc .fork) => ForkFresh (s.switch pid).processes
  | (pid, .ipc (.close fd)) => ∀ i, processCurrent (s.switch pid).processes = some i →
      fd < maxFdsPerProc → ¬ ((s.processes.table i).fdTable fd).holdsPipe
  | (pid, .ipc (.pipeClose fd)) => LastDescriptor (s.switch pid) fd
  | (pid, .ipc .exit) => ∀ i, processCurrent (s.switch pid).processes = some i →
      (s.processes.table i).pid ≤ 1 →
        ∀ fd < maxFdsPerProc, ¬ ((s.processes.table i).fdTable fd).holdsPipe
  | _ => True

structure DescriptorsKept (s : PipeSystem) : Prop where
  backed : TableBacked s.pipes s.processes.table
  fds : PipeFds s.processes.table

section Backed

variable {pipes : Nat → Pipe} {table after : Nat → Process} {entry : FdEntry}

theorem FdEntry.Backed.id (backed : entry.Backed pipes) (free : ¬ entry.holdsPipe) :
    entry.pipeId = -1 := by
  rcases backed with ⟨_, _, none⟩ | ⟨inUse, _, id, isId, bound, _⟩ | ⟨_, _, none⟩
  · exact none
  · exact absurd ⟨inUse, by omega, by omega⟩ free
  · exact none

theorem FdEntry.Backed.pipe (backed : entry.Backed pipes) {id : Nat} (isId : entry.pipeId = id) :
    entry.node = none ∧ (pipes id).inUse = true := by
  rcases backed with ⟨_, _, none⟩ | ⟨_, node, other, isOther, _, live⟩ | ⟨_, _, none⟩
  · omega
  · have same : other = id := by omega
    exact ⟨node, same ▸ live⟩
  · omega

theorem FdEntry.Backed.mono {more : Nat → Pipe} (backed : entry.Backed pipes)
    (live : ∀ id : Nat, entry.inUse = true → entry.pipeId = id → (pipes id).inUse = true →
      (more id).inUse = true) :
    entry.Backed more := by
  rcases backed with node | ⟨inUse, node, id, isId, bound, alive⟩ | free
  · exact .inl node
  · exact .inr (.inl ⟨inUse, node, id, isId, bound, live id inUse isId alive⟩)
  · exact .inr (.inr free)

theorem freed_backed_iff : entry.freed.Backed pipes ↔ entry.pipeId = -1 := by
  simp [FdEntry.Backed, FdEntry.freed]

theorem TableBacked.update (backed : TableBacked pipes table) {i : Nat} {proc : Process}
    (own : proc.state ≠ .unused → ∀ fd, 3 ≤ fd → fd < maxFdsPerProc →
      (proc.fdTable fd).Backed pipes) :
    TableBacked pipes (Function.update table i proc) := fun j live fd low high => by
  by_cases same : j = i
  · subst same
    rw [Function.update_self] at live ⊢
    exact own live fd low high
  · rw [Function.update_of_ne same] at live ⊢
    exact backed j live fd low high

theorem TableBacked.setFd (backed : TableBacked pipes table) {i : Nat} (fd : Nat)
    (live : (table i).state ≠ .unused) (own : entry.Backed pipes) :
    TableBacked pipes (Function.update table i ((table i).setFd fd entry)) :=
  backed.update fun _ other low high => by
    by_cases same : other = fd
    · subst same
      rw [Process.setFd]
      dsimp only
      rw [Function.update_self]
      exact own
    · simp only [Process.setFd, Function.update_of_ne same]
      exact backed i live other low high

theorem setFd_entry (table : Nat → Process) (i fd : Nat) (entry : FdEntry) (j other : Nat) :
    ((Function.update table i ((table i).setFd fd entry)) j).fdTable other =
      if (j, other) = (i, fd) then entry else (table j).fdTable other := by
  by_cases same : j = i
  · subst same
    by_cases equal : other = fd <;> simp [Process.setFd, equal]
  · simp [same]

theorem setFd_state (table : Nat → Process) (i fd : Nat) (entry : FdEntry) (j : Nat) :
    ((Function.update table i ((table i).setFd fd entry)) j).state = (table j).state := by
  by_cases same : j = i
  · subst same
    simp [Process.setFd]
  · simp [same]

/-- A live pipe may go where no descriptor is left that refers to it. -/
theorem TableBacked.setPipe_iff (backed : TableBacked pipes table) {id : Nat} {pipe : Pipe}
    (used : (pipes id).inUse = true) :
    TableBacked (Function.update pipes id pipe) table ↔
      (pipe.inUse = false → ∀ j, (table j).state ≠ .unused → ∀ fd, 3 ≤ fd → fd < maxFdsPerProc →
        ¬ (((table j).fdTable fd).inUse = true ∧ ((table j).fdTable fd).pipeId = id)) := by
  constructor
  · intro after dead j live fd low high refers
    have alive := ((after j live fd low high).pipe refers.2).2
    rw [Function.update_self, dead] at alive
    cases alive
  · intro unused j live fd low high
    refine (backed j live fd low high).mono fun other opened isOther alive => ?_
    by_cases same : other = id
    · subst same
      rw [Function.update_self]
      by_contra dead
      exact unused (Bool.not_eq_true _ ▸ dead) j live fd low high ⟨opened, isOther⟩
    · rwa [Function.update_of_ne same]

theorem freshFds_backed {fd : Nat} (low : 3 ≤ fd) : (freshFds fd).Backed pipes :=
  .inr (.inr ⟨decide_eq_false (Nat.not_lt.mpr low), rfl, rfl⟩)

theorem TableBacked.spawned (backed : TableBacked pipes table) (spawned : Spawned table after) :
    TableBacked pipes after := fun i live fd low high => by
  rcases spawned i with ⟨same, alive⟩ | ⟨_, fresh⟩
  · rw [same]
    exact backed i (alive.not.mp live) fd low high
  · rw [fresh]
    exact freshFds_backed low

end Backed

section Steps

variable {s : PipeSystem}

theorem allocFd_some {s after : Processes} {fd : Nat} (found : allocFd s = (some fd, after)) :
    ∃ i, processCurrent s = some i ∧ 3 ≤ fd ∧ fd < maxFdsPerProc ∧
      ((s.table i).fdTable fd).inUse = false ∧
      after = s.set i ((s.table i).setFd fd
        { (s.table i).fdTable fd with inUse := true, offset := 0 }) := by
  unfold allocFd at found
  split at found
  · cases found
  · rename_i i current
    dsimp only at found
    split at found
    · cases found
    · rename_i slot first
      cases found
      have member := List.mem_range.mp (List.mem_of_find?_eq_some first)
      have hit := List.find?_some first
      simp only [Bool.and_eq_true, decide_eq_true_eq, Bool.not_eq_true'] at hit
      exact ⟨i, current, hit.1, member, hit.2, rfl⟩

/-- `sys_open` fills a free descriptor of its process, and leaves its pipe id as it was. -/
theorem sysOpen_cases (s : Processes) (validPath : Bool) (node : Option OpenNode) (flags : Nat) :
    (sysOpen s validPath node flags).2 = s ∨ ∃ i fd entry, processCurrent s = some i ∧
      3 ≤ fd ∧ fd < maxFdsPerProc ∧ ((s.table i).fdTable fd).inUse = false ∧
      (sysOpen s validPath node flags).2.table =
        Function.update s.table i ((s.table i).setFd fd entry) ∧
      entry.inUse = true ∧ entry.node ≠ none ∧ entry.pipeId = ((s.table i).fdTable fd).pipeId := by
  unfold sysOpen
  split
  · exact .inl rfl
  · split
    · exact .inl rfl
    · rename_i node
      split
      · exact .inl rfl
      · split
        · rename_i full none
          unfold allocFd at none
          split at none
          · cases none
            exact .inl rfl
          · dsimp only at none
            split at none
            · cases none
              exact .inl rfl
            · cases none
        · rename_i fd after found
          obtain ⟨i, current, low, high, free, rfl⟩ := allocFd_some found
          have same : processCurrent (s.set i ((s.table i).setFd fd
              { (s.table i).fdTable fd with inUse := true, offset := 0 })) = some i :=
            (processCurrent_set (by rfl) (by rfl)).trans current
          rw [same]
          refine .inr ⟨i, fd, { (s.table i).fdTable fd with
            node := some node.address, flags, inUse := true
            offset := if flags &&& vfsOAppend ≠ 0 then node.length else 0 },
            current, low, high, free, ?_, rfl, by simp, rfl⟩
          simp [set_self, set_set, Process.setFd]

theorem DescriptorsKept.switch (kept : DescriptorsKept s) (pid : Nat) :
    DescriptorsKept (s.switch pid) := ⟨kept.backed, kept.fds⟩

theorem sysOpen_kept (kept : DescriptorsKept s) (validPath : Bool) (node : Option OpenNode)
    (flags : Nat) :
    DescriptorsKept (s.withProcesses (sysOpen s.processes validPath node flags).2) := by
  rcases sysOpen_cases s.processes validPath node flags with same | ⟨i, fd, entry, current, low,
    high, free, after, inUse, hasNode, pipe⟩
  · rw [same]
    exact kept
  · have live := (processGet_some current).2.1
    have none : entry.pipeId = -1 :=
      pipe.trans ((kept.backed i live fd low high).id fun holds =>
        Bool.false_ne_true (free.symm.trans holds.1))
    have backed := kept.backed.setFd fd live (.inl ⟨inUse, hasNode, none⟩)
    refine ⟨after ▸ backed, after ▸ pipeFds_update kept.fds fun other holds => ?_⟩
    by_cases same : other = fd
    · subst same
      obtain ⟨_, lower, _⟩ := holds
      rw [Process.setFd] at lower
      dsimp only at lower
      rw [Function.update_self, none] at lower
      omega
    · simp only [Process.setFd, Function.update_of_ne same] at holds ⊢
      exact kept.fds i live other holds

theorem pipeCreate_backed (kept : DescriptorsKept s) : DescriptorsKept (pipeCreate s).2.2 := by
  rcases pipeCreate_cases s with same | ⟨i, id, readFd, writeFd, pipe, current, bound, _,
    ⟨readLow, readHigh, _⟩, ⟨writeLow, writeHigh, _⟩, _, ⟨inUse, _, _⟩, after⟩
  · rw [same]
    exact kept
  · have live := (processGet_some current).2.1
    have alive : (Function.update s.pipes id pipe id).inUse = true := by
      rw [Function.update_self]
      exact inUse
    have grown : TableBacked (Function.update s.pipes id pipe) s.processes.table :=
      fun j running fd low high => (kept.backed j running fd low high).mono
        fun other _ _ was => by
          by_cases same : other = id
          · exact same ▸ alive
          · rwa [Function.update_of_ne same]
    rw [after]
    refine ⟨grown.update fun _ fd low high => ?_,
      pipeCreate_fds kept.fds live readLow readHigh writeLow writeHigh _ _ id⟩
    by_cases isWrite : fd = writeFd
    · subst isWrite
      simp only [Process.setFd, Function.update_self]
      exact .inr (.inl ⟨rfl, rfl, id, rfl, bound, alive⟩)
    · by_cases isRead : fd = readFd
      · subst isRead
        simp only [Process.setFd, Function.update_of_ne isWrite, Function.update_self]
        exact .inr (.inl ⟨rfl, rfl, id, rfl, bound, alive⟩)
      · simp only [Process.setFd, Function.update_of_ne isWrite, Function.update_of_ne isRead]
        exact grown i live fd low high

theorem fork_backed (kept : DescriptorsKept s) :
    DescriptorsKept (s.withProcesses (processFork s.processes).2) := by
  refine ⟨?_, (fork_refs s.processes kept.fds).1⟩
  rcases processFork_cases s.processes with ⟨spawned, _⟩ | ⟨parent, child, childPid, created,
    proc, current, made, _, found, after, alive, copies⟩
  · exact kept.backed.spawned spawned
  · have spawned := processCreate_spawned s.processes (s.processes.table parent).name
      (s.processes.table parent).pid
    rw [made] at spawned
    have live := (processGet_some current).2.1
    have backed := kept.backed.spawned spawned
    refine after ▸ backed.update fun _ fd low high => ?_
    rw [copies fd, if_pos high, spawned.live live]
    exact kept.backed parent live fd low high

theorem close_backed (kept : DescriptorsKept s) (fd : Nat) :
    PipeFds (sysClose s.processes fd).2.table ∧
      (TableBacked s.pipes (sysClose s.processes fd).2.table ↔
        ∀ i, processCurrent s.processes = some i → fd < maxFdsPerProc →
          ¬ ((s.processes.table i).fdTable fd).holdsPipe) := by
  rcases sysClose_cases s.processes fd with ⟨same, idle⟩ | ⟨i, current, low, high, after⟩
  · rw [same]
    refine ⟨kept.fds, iff_of_true kept.backed fun i current upper holds => ?_⟩
    rcases idle i current upper with small | closed
    · have high := (kept.fds i (processGet_some current).2.1 fd holds).1
      omega
    · exact Bool.false_ne_true (closed.symm.trans holds.1)
  · have live := (processGet_some current).2.1
    rw [after]
    refine ⟨pipeFds_closed kept.fds live rfl, fun backed j running _ holds => ?_,
      fun careful => ?_⟩
    · obtain rfl : i = j := Option.some.inj (current.symm.trans running)
      have own := backed i (by rw [Function.update_self]; exact live) fd low high
      rw [Function.update_self] at own
      simp only [Process.setFd, Function.update_self] at own
      have none := freed_backed_iff.mp own
      have lower := holds.2.1
      omega
    · have none := (kept.backed i live fd low high).id (careful i current high)
      exact kept.backed.setFd fd live (freed_backed_iff.mpr none)

theorem exec_backed (kept : DescriptorsKept s) (path : List Char) (elf : Option ElfImage)
    (kernelStack : Nat) :
    TableBacked s.pipes (processExec s.processes path elf kernelStack).2.table := by
  unfold processExec
  split
  · exact kept.backed
  · rename_i i current
    split
    · exact kept.backed
    · have live := (processGet_some current).2.1
      refine TableBacked.spawned (kept.backed.update fun _ fd low high => ?_)
        (elfRegister_spawned _ _ _ _)
      have own := kept.backed i live fd low high
      simp only [closeOnExec]
      split
      · rename_i marked
        have free : ¬ ((s.processes.table i).fdTable fd).holdsPipe := fun holds => by
          have small := (kept.fds i live fd holds).2.2
          rcases Nat.le_one_iff_eq_zero_or_eq_one.mp small with zero | one
          · exact marked.2.2.2 (by rw [zero]; rfl)
          · exact marked.2.2.2 (by rw [one]; rfl)
        exact .inr (.inr ⟨rfl, rfl, own.id free⟩)
      · exact own

theorem exit_backed (kept : DescriptorsKept s) :
    PipeFds (sysExit s.processes).table ∧
      (TableBacked s.pipes (sysExit s.processes).table ↔
        ∀ i, processCurrent s.processes = some i → (s.processes.table i).pid ≤ 1 →
          ∀ fd < maxFdsPerProc, ¬ ((s.processes.table i).fdTable fd).holdsPipe) := by
  cases current : processCurrent s.processes with
  | none =>
      rw [sysExit_none current]
      exact ⟨kept.fds, iff_of_true kept.backed fun i running => by cases running⟩
  | some i =>
      obtain ⟨proc, after, fdTable, state, _⟩ := sysExit_table current
      have live := (processGet_some current).2.1
      refine ⟨(sysExit_drops kept.fds current).fds kept.fds, ?_⟩
      rw [after]
      constructor
      · intro backed j running small fd high holds
        obtain rfl : i = j := Option.some.inj running
        have alive : proc.state ≠ .unused := by
          rw [state, if_neg (Nat.not_lt.mpr small)]
          exact live
        obtain ⟨low, _, _⟩ := kept.fds i live fd holds
        have own := backed i (by rw [Function.update_self]; exact alive) fd low high
        rw [Function.update_self, fdTable] at own
        simp only [Process.freeBelow] at own
        rw [if_pos ⟨low, high, holds.1⟩] at own
        have none := freed_backed_iff.mp own
        have lower := holds.2.1
        omega
      · intro careful
        refine kept.backed.update fun running fd low high => ?_
        have small : (s.processes.table i).pid ≤ 1 := by
          by_contra user
          exact running (state.trans (if_pos (Nat.lt_of_not_le user)))
        have own := kept.backed i live fd low high
        rw [fdTable]
        simp only [Process.freeBelow]
        split
        · exact freed_backed_iff.mpr (own.id (careful i rfl small fd high))
        · exact own

theorem pipeClose_backed (kept : DescriptorsKept s) (fd : Int) :
    PipeFds (pipeClose s fd).2.processes.table ∧
      (TableBacked (pipeClose s fd).2.pipes (pipeClose s fd).2.processes.table ↔
        LastDescriptor s fd) := by
  rcases pipeClose_cases s fd with ⟨same, idle⟩ | ⟨i, entry, id, found, isId, bound, used, after⟩
  · rw [same]
    refine ⟨kept.fds, iff_of_true kept.backed fun i entry found id isId bound live => ?_⟩
    exact absurd live (by rw [idle i entry found id isId bound]; exact Bool.false_ne_true)
  · obtain ⟨current, _, high, isEntry, inUse⟩ := openDescriptor_some found
    have running := (processGet_some current).2.1
    have holds : ((s.processes.table i).fdTable fd.toNat).holdsPipe := by
      rw [isEntry]
      exact ⟨inUse, by omega, by omega⟩
    have low := (kept.fds i running fd.toNat holds).1
    have own := kept.backed i running fd.toNat low high
    rw [isEntry] at own
    have rest := kept.backed.setFd fd.toNat running
      (.inr (.inr ⟨rfl, (own.pipe isId).1, rfl⟩) :
        FdEntry.Backed s.pipes { entry with inUse := false, pipeId := -1 })
    rw [after]
    refine ⟨pipeFds_closed kept.fds running rfl, (rest.setPipe_iff used).trans ?_⟩
    constructor
    · intro unused j closing again number isNumber _ _ dead k alive other lower upper apart refers
      cases found.symm.trans again
      obtain rfl : id = number := by omega
      refine unused dead k (by rwa [setFd_state]) other lower upper ?_
      rwa [setFd_entry, if_neg apart]
    · intro last dead k alive other lower upper refers
      rw [setFd_state] at alive
      rw [setFd_entry] at refers
      split at refers
      · cases refers.1
      · rename_i apart
        exact last i entry found id isId bound used dead k alive other lower upper apart refers

/-- The tables of the live processes other than the current one. -/
def OthersKept (s : Processes) (after : Nat → Process) : Prop :=
  ∀ i, processCurrent s ≠ some i → (s.table i).state ≠ .unused →
    (after i).fdTable = (s.table i).fdTable

theorem othersKept_update {s : Processes} {i : Nat} (current : processCurrent s = some i)
    (proc : Process) : OthersKept s (Function.update s.table i proc) := fun j other _ => by
  have apart : j ≠ i := fun same => other (same ▸ current)
  rw [Function.update_of_ne apart]

theorem OthersKept.spawned {s : Processes} {after : Nat → Process}
    (spawned : Spawned s.table after) : OthersKept s after := fun _ _ live => spawned.live live

theorem othersKept_fork (s : Processes) :
    OthersKept s (processFork s).2.table ↔ ForkFresh s := by
  rcases processFork_cases s with ⟨spawned, fails⟩ | ⟨parent, child, childPid, created, proc,
    current, made, nonzero, found, after, alive, copies⟩
  · refine iff_of_true (.spawned spawned) fun parent current nonzero child found => ?_
    exact absurd ((fails parent current nonzero).symm.trans found) (Option.some_ne_none _).symm
  · have spawned := processCreate_spawned s (s.table parent).name (s.table parent).pid
    rw [made] at spawned
    have parentFds := spawned.live (processGet_some current).2.1
    have fresh : ForkFresh s ↔ (s.table child).state = .unused ∨
        ∀ fd < maxFdsPerProc, (s.table parent).fdTable fd = (s.table child).fdTable fd := by
      simp [ForkFresh, current, made, nonzero, found]
    rw [after, fresh]
    constructor
    · intro others
      by_cases live : (s.table child).state = .unused
      · exact .inl live
      · refine .inr fun fd high => ?_
        by_cases own : child = parent
        · rw [own]
        · have kept := others child (fun same => own (Option.some.inj (current.symm.trans same)).symm)
            live
          rw [Function.update_self] at kept
          have copied := copies fd
          rw [kept, if_pos high, parentFds] at copied
          exact copied.symm
    · intro either i other live
      by_cases own : i = child
      · subst own
        have same := either.resolve_left live
        rw [Function.update_self]
        funext fd
        rw [copies fd]
        split
        · rename_i high
          rw [parentFds]
          exact same fd high
        · rw [spawned.live live]
      · rw [Function.update_of_ne own]
        exact spawned.live live

theorem othersKept_exec (s : Processes) (path : List Char) (elf : Option ElfImage)
    (kernelStack : Nat) : OthersKept s (processExec s path elf kernelStack).2.table := by
  unfold processExec
  split
  · exact fun _ _ _ => rfl
  · rename_i i current
    split
    · exact fun _ _ _ => rfl
    · intro j other live
      have apart : j ≠ i := fun same => other (same ▸ current)
      have marked : ∀ proc, (s.set i proc).table j = s.table j := fun _ =>
        Function.update_of_ne apart ..
      rw [(elfRegister_spawned _ _ _ _).live (by rw [marked]; exact live), marked]

theorem OthersKept.refl (s : Processes) : OthersKept s s.table := fun _ _ _ => rfl

theorem othersKept_open (s : Processes) (validPath : Bool) (node : Option OpenNode) (flags : Nat) :
    OthersKept s (sysOpen s validPath node flags).2.table := by
  rcases sysOpen_cases s validPath node flags with same | ⟨i, fd, entry, current, _, _, _, after, _⟩
  · rw [same]
    exact .refl s
  · rw [after]
    exact othersKept_update current _

theorem othersKept_pipe (s : PipeSystem) :
    OthersKept s.processes (pipeCreate s).2.2.processes.table := by
  rcases pipeCreate_cases s with same | ⟨i, _, _, _, _, current, _, _, _, _, _, _, after⟩
  · rw [same]
    exact .refl _
  · rw [after]
    exact othersKept_update current _

theorem othersKept_close (s : Processes) (fd : Nat) : OthersKept s (sysClose s fd).2.table := by
  rcases sysClose_cases s fd with ⟨same, _⟩ | ⟨i, current, _, _, after⟩
  · rw [same]
    exact .refl s
  · rw [after]
    exact othersKept_update current _

theorem othersKept_pipeClose (s : PipeSystem) (fd : Int) :
    OthersKept s.processes (pipeClose s fd).2.processes.table := by
  rcases pipeClose_cases s fd with ⟨same, _⟩ | ⟨i, entry, id, found, _, _, _, after⟩
  · rw [same]
    exact .refl _
  · rw [after]
    exact othersKept_update (openDescriptor_some found).1 _

theorem othersKept_exit (s : Processes) : OthersKept s (sysExit s).table := by
  cases current : processCurrent s with
  | none =>
      rw [sysExit_none current]
      exact .refl s
  | some i =>
      obtain ⟨proc, after, _⟩ := sysExit_table current
      rw [after]
      exact othersKept_update current proc

/-- A careful call keeps the descriptors in order; and the descriptors are in order after a
call only if it is careful. -/
theorem descriptorStep_sound (kept : DescriptorsKept s) (call : Nat × DescriptorCall) :
    (DescriptorCareful s call → DescriptorsKept (descriptorStep s call)) ∧
      (DescriptorsSound s call ↔ DescriptorCareful s call) := by
  obtain ⟨pid, call⟩ := call
  replace kept := kept.switch pid
  cases call with
  | «open» validPath node flags =>
      have after := sysOpen_kept kept validPath node flags
      exact ⟨fun _ => after, iff_of_true ⟨after.backed, othersKept_open _ _ _ _⟩ trivial⟩
  | ipc call =>
      cases call with
      | pipe =>
          have after := pipeCreate_backed kept
          exact ⟨fun _ => after, iff_of_true ⟨after.backed, othersKept_pipe _⟩ trivial⟩
      | fork =>
          have after := fork_backed kept
          exact ⟨fun _ => after, fun sound => (othersKept_fork _).mp sound.others,
            fun fresh => ⟨after.backed, (othersKept_fork _).mpr fresh⟩⟩
      | close fd =>
          obtain ⟨fds, backed⟩ := close_backed kept fd
          exact ⟨fun careful => ⟨backed.mpr careful, fds⟩, fun sound => backed.mp sound.backed,
            fun careful => ⟨backed.mpr careful, othersKept_close _ fd⟩⟩
      | pipeClose fd =>
          obtain ⟨fds, backed⟩ := pipeClose_backed kept fd
          exact ⟨fun careful => ⟨backed.mpr careful, fds⟩, fun sound => backed.mp sound.backed,
            fun careful => ⟨backed.mpr careful, othersKept_pipeClose _ fd⟩⟩
      | exec path elf kernelStack =>
          have backed := exec_backed kept path elf kernelStack
          have quiet := processExec_quiet (s.switch pid).processes kept.fds path elf kernelStack
          exact ⟨fun _ => ⟨backed, quiet.fds kept.fds⟩,
            iff_of_true ⟨backed, othersKept_exec _ path elf kernelStack⟩ trivial⟩
      | exit =>
          obtain ⟨fds, backed⟩ := exit_backed kept
          have others := othersKept_exit (s.switch pid).processes
          exact ⟨fun careful => ⟨backed.mpr careful, fds⟩, fun sound => backed.mp sound.backed,
            fun careful => ⟨backed.mpr careful, others⟩⟩
      | processExit status =>
          have stable := processExit_stable (s.switch pid).processes status
          have backed := kept.backed.spawned stable.spawned
          exact ⟨fun _ => ⟨backed, stable.quiet.fds kept.fds⟩,
            iff_of_true ⟨backed, OthersKept.spawned stable.spawned⟩ trivial⟩

/-- Every process has the descriptors it was created with. -/
def DescriptorStart (s : PipeSystem) : Prop :=
  ∀ i, (s.processes.table i).state ≠ .unused → (s.processes.table i).fdTable = freshFds

theorem freshFds_pipeless (fd : Nat) : ¬ (freshFds fd).holdsPipe := by
  rintro ⟨_, lower, _⟩
  change (0 : Int) ≤ -1 at lower
  omega

theorem DescriptorStart.kept (start : DescriptorStart s) : DescriptorsKept s := by
  constructor
  · intro i live fd low _
    rw [start i live]
    exact freshFds_backed low
  · intro i live fd holds
    rw [start i live] at holds
    exact absurd holds (freshFds_pipeless fd)

/-- In a run of calls of any processes, the descriptors are in order after every call exactly
if every call is careful. -/
theorem descriptors_run_iff (start : DescriptorStart s) (calls : List (Nat × DescriptorCall)) :
    Along descriptorStep DescriptorsSound s calls ↔
      Along descriptorStep DescriptorCareful s calls :=
  along_congr DescriptorsKept (fun _ call kept => (descriptorStep_sound kept call).1)
    (fun _ call kept => (descriptorStep_sound kept call).2) start.kept calls

theorem descriptorBoot_start : DescriptorStart pipeBoot := by
  intro i live
  by_cases shell : i = 1
  · subst shell
    rfl
  · by_cases kernel : i = 0
    · subst kernel
      rfl
    · refine absurd ?_ live
      simp [pipeBoot, processInit, Process.zero, shell, kernel]

theorem descriptors_run_iff_boot :
    Along descriptorStep DescriptorsSound pipeBoot
      [(1, .open true (some ⟨0x5000, false, 0⟩) 0), (1, .ipc .pipe), (1, .ipc (.close 3))] := by
  refine (descriptors_run_iff descriptorBoot_start _).mpr ⟨trivial, trivial, ?_, trivial⟩
  intro i current _
  have shell : processCurrent ([(1, .open true (some ⟨0x5000, false, 0⟩) 0),
      (1, .ipc .pipe)].foldl descriptorStep pipeBoot |>.switch 1).processes = some 1 := by
    decide
  obtain rfl : i = 1 := Option.some.inj (current.symm.trans shell)
  decide

/-- The shell closes the descriptor of a pipe and opens a file: the descriptor then has a
node and a pipe behind it. -/
theorem descriptor_both :
    DescriptorStart pipeBoot ∧
      let s := [(1, DescriptorCall.ipc .pipe), (1, .ipc (.close 3)),
        (1, .open true (some ⟨0x5000, false, 0⟩) 0)].foldl descriptorStep pipeBoot
      ((s.processes.table 1).fdTable 3).node = some 0x5000 ∧
        ((s.processes.table 1).fdTable 3).pipeId = 0 ∧ (s.pipes 0).inUse = true ∧
        ¬ TableBacked s.pipes s.processes.table := by
  refine ⟨descriptorBoot_start, by decide, by decide, by decide, fun backed => ?_⟩
  have live : (([(1, DescriptorCall.ipc .pipe), (1, .ipc (.close 3)),
      (1, .open true (some ⟨0x5000, false, 0⟩) 0)].foldl descriptorStep
        pipeBoot).processes.table 1).state ≠ .unused := by
    decide
  have own := backed 1 live 3 (by decide) (by decide)
  have node := (@FdEntry.Backed.pipe _ _ own 0 (by decide)).1
  exact absurd node (by decide)

end Steps

end ZurichOS
