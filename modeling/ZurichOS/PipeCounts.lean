import ZurichOS.PipeRefs
import ZurichOS.Transitions

set_option linter.all false

/-!
The reader and writer counts of the pipes against the descriptors of all processes.
Creating a pipe and `pipe_close` keep them equal; a fork does not count the descriptors it
copies, and `free_fd` does not give back those it frees.
-/

namespace ZurichOS

open Transitions

/-- A system call, or the end of a process by a signal. -/
inductive IpcCall where
  | pipe
  | fork
  | close (fd : Nat)
  | pipeClose (fd : Int)
  | exec (path : List Char) (elf : Option ElfImage) (kernelStack : Nat)
  | exit
  | processExit (status : Int)

def PipeSystem.withProcesses (s : PipeSystem) (processes : Processes) : PipeSystem :=
  { s with processes }

def ipcStep (s : PipeSystem) : Nat × IpcCall → PipeSystem
  | (pid, call) =>
      let s := s.switch pid
      match call with
      | .pipe => (pipeCreate s).2.2
      | .fork => s.withProcesses (processFork s.processes).2
      | .close fd => s.withProcesses (sysClose s.processes fd).2
      | .pipeClose fd => (pipeClose s fd).2
      | .exec path elf kernelStack =>
          s.withProcesses (processExec s.processes path elf kernelStack).2
      | .exit => s.withProcesses (sysExit s.processes)
      | .processExit status => s.withProcesses (processExit s.processes status)

/-- The counts of a live pipe are its descriptors; a slot of the pipe table is free exactly
where no descriptor refers to it, so the next pipe that takes it is nobody's. -/
structure PipeCounted (s : PipeSystem) : Prop where
  readers : ∀ id < maxPipes, (s.pipes id).inUse = true →
    (s.pipes id).readers = descriptorRefs id true s.processes.table
  writers : ∀ id < maxPipes, (s.pipes id).inUse = true →
    (s.pipes id).writers = descriptorRefs id false s.processes.table
  live : ∀ id < maxPipes, (s.pipes id).inUse = true ↔
    ∃ reading, 0 < descriptorRefs id reading s.processes.table

/-- A fork copies no descriptor of a pipe, and `free_fd` frees none. -/
def IpcCareful (s : PipeSystem) : Nat × IpcCall → Prop
  | (pid, .fork) => ForkCounted (s.switch pid).processes
  | (pid, .close fd) => ∀ i, processCurrent (s.switch pid).processes = some i →
      fd < maxFdsPerProc → ¬ ((s.processes.table i).fdTable fd).holdsPipe
  | (pid, .exit) => ∀ i, processCurrent (s.switch pid).processes = some i →
      ∀ fd < maxFdsPerProc, ¬ ((s.processes.table i).fdTable fd).holdsPipe
  | _ => True

structure PipeKept (s : PipeSystem) : Prop extends PipeCounted s where
  fds : PipeFds s.processes.table

section Steps

variable {s : PipeSystem}

theorem PipeKept.switch (kept : PipeKept s) (pid : Nat) : PipeKept (s.switch pid) :=
  ⟨⟨kept.readers, kept.writers, kept.live⟩, kept.fds⟩

theorem PipeKept.carry (kept : PipeKept s) {processes : Processes}
    (fds : PipeFds processes.table) (refs : ∀ id < maxPipes, ∀ reading,
      descriptorRefs id reading processes.table = descriptorRefs id reading s.processes.table) :
    PipeKept (s.withProcesses processes) := by
  refine ⟨⟨fun id bound inUse => ?_, fun id bound inUse => ?_, fun id bound => ?_⟩, fds⟩
  · exact (kept.readers id bound inUse).trans (refs id bound true).symm
  · exact (kept.writers id bound inUse).trans (refs id bound false).symm
  · refine (kept.live id bound).trans (exists_congr fun reading => ?_)
    rw [← refs id bound reading]
    rfl

theorem PipeKept.quiet (kept : PipeKept s) {processes : Processes}
    (quiet : Quiet s.processes.table processes.table) : PipeKept (s.withProcesses processes) :=
  kept.carry (quiet.fds kept.fds) fun _ bound reading => quiet.refs bound reading

/-- Where the pipes stay as they are, the counts only fit the same descriptors. -/
theorem PipeKept.same_refs (kept : PipeKept s) {processes : Processes}
    (counted : PipeCounted (s.withProcesses processes)) {id : Nat} (bound : id < maxPipes)
    (reading : Bool) :
    descriptorRefs id reading processes.table = descriptorRefs id reading s.processes.table := by
  by_cases inUse : (s.pipes id).inUse = true
  · cases reading with
    | true => exact (counted.readers id bound inUse).symm.trans (kept.readers id bound inUse)
    | false => exact (counted.writers id bound inUse).symm.trans (kept.writers id bound inUse)
  · have before : ¬ 0 < descriptorRefs id reading s.processes.table := fun some =>
      inUse ((kept.live id bound).mpr ⟨reading, some⟩)
    have after : ¬ 0 < descriptorRefs id reading processes.table := fun some =>
      inUse ((counted.live id bound).mpr ⟨reading, some⟩)
    omega

theorem fork_refs (s : Processes) (fds : PipeFds s.table) :
    PipeFds (processFork s).2.table ∧
      ((∀ id < maxPipes, ∀ reading, descriptorRefs id reading (processFork s).2.table =
        descriptorRefs id reading s.table) ↔ ForkCounted s) := by
  rcases processFork_cases s with ⟨spawned, fails⟩ | ⟨parent, child, childPid, created, proc, current, made,
    nonzero, found, after, live, copies⟩
  · have quiet := spawned.quiet
    exact ⟨quiet.fds fds, iff_of_true (fun id bound reading => quiet.refs bound reading) fails.counted⟩
  · have quiet := processCreate_quiet s (s.table parent).name (s.table parent).pid
    rw [made] at quiet
    dsimp only at quiet
    obtain ⟨inside, childLive, _⟩ := processGet_some found
    have parentLive : (created.table parent).state ≠ .unused := by
      have same := processCreate_live (s.table parent).name (s.table parent).pid
        (processGet_some current).2.1
      rw [made] at same
      exact same ▸ (processGet_some current).2.1
    have copied : ∀ id reading, processRefs id reading proc =
        processRefs id reading (created.table parent) := fun id reading => by
      unfold processRefs
      rw [if_neg (live.not.mpr childLive), if_neg parentLive]
      refine Finset.sum_congr rfl fun fd member => ?_
      rw [copies fd, if_pos (Finset.mem_range.mp member)]
    have counted : ForkCounted s ↔ ∀ id < maxPipes, ∀ reading,
        processRefs id reading (created.table parent) =
          processRefs id reading (created.table child) := by
      simp [ForkCounted, current, made, nonzero, found]
    refine ⟨after ▸ pipeFds_update (quiet.fds fds) fun fd holds => ?_, ?_⟩
    · rw [copies fd] at holds ⊢
      by_cases small : fd < maxFdsPerProc
      · rw [if_pos small] at holds ⊢
        exact quiet.fds fds parent parentLive fd holds
      · rw [if_neg small] at holds ⊢
        exact quiet.fds fds child childLive fd holds
    · rw [counted, after]
      refine forall_congr' fun id => forall_congr' fun bound => forall_congr' fun reading => ?_
      have moved := descriptorRefs_set id reading created.table inside proc
      have before := quiet.refs bound reading
      rw [copied] at moved
      omega

/-- Giving a descriptor back to `free_fd` is counted only where it holds no pipe. -/
theorem freed_refs {processes : Processes} {table : Nat → Process} (fds : PipeFds table) {i fd : Nat}
    (inTable : i < maxProcesses) (live : (table i).state ≠ .unused) (inside : fd < maxFdsPerProc)
    (after : processes.table =
      Function.update table i ((table i).setFd fd ((table i).fdTable fd).freed)) :
    PipeFds processes.table ∧
      ((∀ id < maxPipes, ∀ reading, descriptorRefs id reading processes.table =
        descriptorRefs id reading table) ↔ ¬ ((table i).fdTable fd).holdsPipe) := by
  refine ⟨after ▸ pipeFds_closed fds live rfl, ?_⟩
  rw [after, holdsPipe_iff]
  simp only [not_exists, not_and]
  refine forall_congr' fun id => forall_congr' fun bound => forall_congr' fun reading => ?_
  have moved := close_refs inTable live inside ((table i).fdTable fd).freed rfl id reading
  have one : entryRefs id reading ((table i).fdTable fd) ≤ 1 := by
    unfold entryRefs
    split <;> omega
  omega

theorem freeDescriptors_two {proc : Process} {readFd writeFd : Nat} {rest : List Nat}
    (found : freeDescriptors proc = readFd :: writeFd :: rest) :
    (3 ≤ readFd ∧ readFd < maxFdsPerProc ∧ (proc.fdTable readFd).inUse = false) ∧
      (3 ≤ writeFd ∧ writeFd < maxFdsPerProc ∧ (proc.fdTable writeFd).inUse = false) ∧
      writeFd ≠ readFd := by
  have member : ∀ fd ∈ freeDescriptors proc,
      3 ≤ fd ∧ fd < maxFdsPerProc ∧ (proc.fdTable fd).inUse = false := fun fd inside => by
    simp only [freeDescriptors, List.mem_filter, List.mem_range, Bool.and_eq_true,
      decide_eq_true_eq, Bool.not_eq_true'] at inside
    exact ⟨inside.2.1, inside.1, inside.2.2⟩
  have nodup : (freeDescriptors proc).Nodup := List.nodup_range.filter _
  rw [found] at member nodup
  refine ⟨member readFd (by simp), member writeFd (by simp), fun same => ?_⟩
  exact (List.nodup_cons.mp nodup).1 (same ▸ List.mem_cons_self ..)

/-- The pipe `id` and one process change; the other pipes keep their descriptors. -/
theorem PipeKept.pipe (kept : PipeKept s) {id i : Nat} {pipe : Pipe} {proc : Process}
    (fds : PipeFds (Function.update s.processes.table i proc))
    (others : ∀ other < maxPipes, other ≠ id → ∀ reading,
      descriptorRefs other reading (Function.update s.processes.table i proc) =
        descriptorRefs other reading s.processes.table)
    (readers : pipe.inUse = true →
      pipe.readers = descriptorRefs id true (Function.update s.processes.table i proc))
    (writers : pipe.inUse = true →
      pipe.writers = descriptorRefs id false (Function.update s.processes.table i proc))
    (live : pipe.inUse = true ↔
      ∃ reading, 0 < descriptorRefs id reading (Function.update s.processes.table i proc)) :
    PipeKept ((s.setPipe id pipe).setProcess i proc) := by
  have own : ((s.setPipe id pipe).setProcess i proc).pipes id = pipe := Function.update_self ..
  have other : ∀ k, k ≠ id → ((s.setPipe id pipe).setProcess i proc).pipes k = s.pipes k :=
    fun k apart => Function.update_of_ne apart ..
  refine ⟨⟨fun k bound inUse => ?_, fun k bound inUse => ?_, fun k bound => ?_⟩, fds⟩ <;>
    by_cases same : k = id
  · subst same
    rw [own] at inUse ⊢
    exact readers inUse
  · rw [other k same] at inUse ⊢
    exact (kept.readers k bound inUse).trans (others k bound same true).symm
  · subst same
    rw [own] at inUse ⊢
    exact writers inUse
  · rw [other k same] at inUse ⊢
    exact (kept.writers k bound inUse).trans (others k bound same false).symm
  · subst same
    rw [own]
    exact live
  · rw [other k same]
    exact (kept.live k bound).trans
      (exists_congr fun reading => by rw [← others k bound same reading]; rfl)

/-- The descriptors of a new pipe, in the entries they take. -/
def FdEntry.reader (entry : FdEntry) (id : Nat) : FdEntry :=
  { entry with inUse := true, pipeId := id, flags := 0, node := none }

def FdEntry.writer (entry : FdEntry) (id : Nat) : FdEntry :=
  { entry with inUse := true, pipeId := id, flags := 1, node := none }

theorem pipeCreate_cases (s : PipeSystem) :
    (pipeCreate s).2.2 = s ∨ ∃ i id readFd writeFd, ∃ pipe : Pipe,
      processCurrent s.processes = some i ∧ id < maxPipes ∧ (s.pipes id).inUse = false ∧
      (3 ≤ readFd ∧ readFd < maxFdsPerProc ∧
        ((s.processes.table i).fdTable readFd).inUse = false) ∧
      (3 ≤ writeFd ∧ writeFd < maxFdsPerProc ∧
        ((s.processes.table i).fdTable writeFd).inUse = false) ∧ writeFd ≠ readFd ∧
      (pipe.inUse = true ∧ pipe.readers = 1 ∧ pipe.writers = 1) ∧
      (pipeCreate s).2.2 = (s.setPipe id pipe).setProcess i
        (((s.processes.table i).setFd readFd
          (((s.processes.table i).fdTable readFd).reader id)).setFd writeFd
          (((s.processes.table i).fdTable writeFd).writer id)) := by
  unfold pipeCreate
  split
  · exact .inl rfl
  · rename_i id slot
    split
    · exact .inl rfl
    · rename_i i current
      dsimp only
      split
      · rename_i readFd writeFd rest found
        obtain ⟨reads, writes, apart⟩ := freeDescriptors_two found
        exact .inr ⟨i, id, readFd, writeFd, _, current,
          List.mem_range.mp (List.mem_of_find?_eq_some slot), by simpa using List.find?_some slot,
          reads, writes, apart, ⟨rfl, rfl, rfl⟩, rfl⟩
      · exact .inl rfl

theorem pipeCreate_fds {table : Nat → Process} (fds : PipeFds table) {i readFd writeFd : Nat}
    (live : (table i).state ≠ .unused) (readLow : 3 ≤ readFd) (readHigh : readFd < maxFdsPerProc)
    (writeLow : 3 ≤ writeFd) (writeHigh : writeFd < maxFdsPerProc) (reader writer : FdEntry)
    (id : Nat) : PipeFds (Function.update table i
      (((table i).setFd readFd (reader.reader id)).setFd writeFd (writer.writer id))) := by
  refine pipeFds_update fds fun fd holds => ?_
  by_cases isWrite : fd = writeFd
  · subst isWrite
    exact ⟨writeLow, writeHigh, by simp [Process.setFd, FdEntry.writer]⟩
  · by_cases isRead : fd = readFd
    · subst isRead
      exact ⟨readLow, readHigh, by simp [Process.setFd, FdEntry.reader, isWrite]⟩
    · simp only [Process.setFd, Function.update_of_ne isWrite,
        Function.update_of_ne isRead] at holds ⊢
      exact fds i live fd holds

theorem pipeCreate_kept (kept : PipeKept s) : PipeKept (pipeCreate s).2.2 := by
  rcases pipeCreate_cases s with same | ⟨i, id, readFd, writeFd, pipe, current, idBound, free,
    ⟨readLow, readHigh, readFree⟩, ⟨writeLow, writeHigh, writeFree⟩, apart,
    ⟨inUse, readers, writers⟩, after⟩
  · rw [same]
    exact kept
  · obtain ⟨inside, live, _⟩ := processGet_some current
    have unused : ∀ reading, descriptorRefs id reading s.processes.table = 0 := fun reading => by
      by_contra some
      have used := (kept.live id idBound).mpr ⟨reading, Nat.pos_of_ne_zero some⟩
      exact Bool.false_ne_true (free.symm.trans used)
    have refs := open_refs inside live readHigh writeHigh readFree writeFree apart
      (((s.processes.table i).fdTable readFd).reader id)
      (((s.processes.table i).fdTable writeFd).writer id)
    rw [after]
    refine kept.pipe (pipeCreate_fds kept.fds live readLow readHigh writeLow writeHigh _ _ id)
      (fun other _ different reading => ?_) (fun _ => ?_) (fun _ => ?_)
      (iff_of_true inUse ⟨true, ?_⟩)
    · have none : (id : Int) ≠ other := by omega
      rw [refs]
      simp [entryRefs, FdEntry.reader, FdEntry.writer, none]
    · rw [refs, unused, readers]
      simp [entryRefs, FdEntry.reader, FdEntry.writer]
    · rw [refs, unused, writers]
      simp [entryRefs, FdEntry.reader, FdEntry.writer]
    · rw [refs, unused]
      simp [entryRefs, FdEntry.reader, FdEntry.writer]

theorem openDescriptor_some {fd : Int} {i : Nat} {entry : FdEntry}
    (found : openDescriptor s fd = some (i, entry)) :
    processCurrent s.processes = some i ∧ 0 ≤ fd ∧ fd.toNat < maxFdsPerProc ∧
      (s.processes.table i).fdTable fd.toNat = entry ∧ entry.inUse = true := by
  unfold openDescriptor at found
  split at found
  · cases found
  · rename_i current
    split at found
    · cases found
    · dsimp only at found
      split at found
      · rename_i inUse
        cases found
        exact ⟨current, by omega, by omega, rfl, inUse⟩
      · cases found

theorem giveBack_spec (pipe : Pipe) (flags : Nat) :
    (pipe.giveBack flags).readers = pipe.readers - (if flags = 0 then 1 else 0) ∧
      (pipe.giveBack flags).writers = pipe.writers - (if flags = 0 then 0 else 1) ∧
      ((pipe.giveBack flags).inUse = true ↔ pipe.inUse = true ∧
        ((pipe.giveBack flags).readers ≠ 0 ∨ (pipe.giveBack flags).writers ≠ 0)) := by
  unfold Pipe.giveBack
  by_cases isRead : flags = 0
  · simp only [isRead, if_true]
    split
    · rename_i last
      simp [last]
    · rename_i more
      exact ⟨rfl, rfl, by tauto⟩
  · simp only [isRead, if_false]
    split
    · rename_i last
      simp [last]
    · rename_i more
      exact ⟨rfl, rfl, by tauto⟩

theorem entryRefs_open {entry : FdEntry} (inUse : entry.inUse = true) {id : Nat}
    (isId : entry.pipeId = id) (reading : Bool) :
    entryRefs id reading entry = if decide (entry.flags = 0) = reading then 1 else 0 := by
  simp [entryRefs, inUse, isId]

theorem pipeClose_cases (s : PipeSystem) (fd : Int) :
    ((pipeClose s fd).2 = s ∧ ∀ i entry, openDescriptor s fd = some (i, entry) →
        ∀ id : Nat, entry.pipeId = id → id < maxPipes → (s.pipes id).inUse = false) ∨
      ∃ i entry, ∃ id : Nat, openDescriptor s fd = some (i, entry) ∧ entry.pipeId = id ∧
        id < maxPipes ∧ (s.pipes id).inUse = true ∧
        (pipeClose s fd).2 = (s.setPipe id ((s.pipes id).giveBack entry.flags)).setProcess i
          ((s.processes.table i).setFd fd.toNat { entry with inUse := false, pipeId := -1 }) := by
  unfold pipeClose
  split
  · rename_i none
    exact .inl ⟨rfl, by simp [none]⟩
  · rename_i i entry found
    split
    · rename_i range
      refine .inl ⟨rfl, fun j other same id isId bound => ?_⟩
      cases found.symm.trans same
      omega
    · rename_i range
      dsimp only
      split
      · rename_i free
        refine .inl ⟨rfl, fun j other same id isId bound => ?_⟩
        cases found.symm.trans same
        rwa [isId] at free
      · rename_i used
        exact .inr ⟨i, entry, entry.pipeId.toNat, found, by omega, by omega, by simpa using used,
          rfl⟩

theorem pipeClose_kept (kept : PipeKept s) (fd : Int) : PipeKept (pipeClose s fd).2 := by
  rcases pipeClose_cases s fd with ⟨same, _⟩ | ⟨i, entry, id, found, isId, bound, used, after⟩
  · rw [same]
    exact kept
  · obtain ⟨current, _, upper, isEntry, inUse⟩ := openDescriptor_some found
    obtain ⟨inside, live, _⟩ := processGet_some current
    obtain ⟨readersLeft, writersLeft, stays⟩ := giveBack_spec (s.pipes id) entry.flags
    have refs := close_refs inside live upper { entry with inUse := false, pipeId := -1 } rfl
    have readers := kept.readers id bound used
    have writers := kept.writers id bound used
    have readRefs := refs id true
    have writeRefs := refs id false
    rw [isEntry, entryRefs_open inUse isId] at readRefs writeRefs
    rw [after]
    have read : ((s.pipes id).giveBack entry.flags).readers = descriptorRefs id true
        (Function.update s.processes.table i ((s.processes.table i).setFd fd.toNat
          { entry with inUse := false, pipeId := -1 })) := by
      rw [readersLeft, readers, ← readRefs]
      by_cases isRead : entry.flags = 0 <;> simp [isRead]
    have write : ((s.pipes id).giveBack entry.flags).writers = descriptorRefs id false
        (Function.update s.processes.table i ((s.processes.table i).setFd fd.toNat
          { entry with inUse := false, pipeId := -1 })) := by
      rw [writersLeft, writers, ← writeRefs]
      by_cases isRead : entry.flags = 0 <;> simp [isRead]
    refine kept.pipe (pipeFds_closed kept.fds live rfl)
      (fun other _ different reading => ?_) (fun _ => read) (fun _ => write) ?_
    · have none : entryRefs other reading entry = 0 := if_neg fun holds => different (by omega)
      have moved := refs other reading
      rw [isEntry, none, Nat.add_zero] at moved
      exact moved
    · rw [stays, read, write, Bool.exists_bool]
      simp only [used, true_and]
      omega

/-- A call keeps the counts where it is careful, and nowhere else. -/
theorem ipcStep_counted (kept : PipeKept s) (call : Nat × IpcCall) :
    (IpcCareful s call → PipeKept (ipcStep s call)) ∧
      (PipeCounted (ipcStep s call) → IpcCareful s call) := by
  obtain ⟨pid, call⟩ := call
  replace kept := kept.switch pid
  cases call with
  | pipe => exact ⟨fun _ => pipeCreate_kept kept, fun _ => trivial⟩
  | fork =>
      obtain ⟨fds, counted⟩ := fork_refs (s.switch pid).processes kept.fds
      refine ⟨fun careful => kept.carry fds (counted.mpr careful), fun after => counted.mp ?_⟩
      exact fun id bound reading => kept.same_refs after bound reading
  | close fd =>
      rcases sysClose_cases (s.switch pid).processes fd with
        ⟨same, idle⟩ | ⟨i, current, lower, upper, after⟩
      · refine ⟨fun _ => kept.quiet (by rw [same]; exact .refl _), fun _ i current upper holds => ?_⟩
        have live := (processGet_some current).2.1
        rcases idle i current upper with low | closed
        · have high := (kept.fds i live fd holds).1
          omega
        · exact Bool.false_ne_true (closed.symm.trans holds.1)
      · obtain ⟨inside, live, _⟩ := processGet_some current
        obtain ⟨fds, counted⟩ := freed_refs kept.fds inside live upper after
        refine ⟨fun careful => kept.carry fds (counted.mpr (careful i current upper)),
          fun sound j running _ => ?_⟩
        obtain rfl : i = j := Option.some.inj (current.symm.trans running)
        exact counted.mp fun id bound reading => kept.same_refs sound bound reading
  | pipeClose fd => exact ⟨fun _ => pipeClose_kept kept fd, fun _ => trivial⟩
  | exec path elf kernelStack =>
      exact ⟨fun _ => kept.quiet (processExec_quiet _ kept.fds path elf kernelStack),
        fun _ => trivial⟩
  | exit =>
      cases current : processCurrent (s.switch pid).processes with
      | none =>
          refine ⟨fun _ => kept.quiet ?_, fun _ i running => ?_⟩
          · rw [sysExit_none current]
            exact .refl _
          · cases current.symm.trans running
      | some i =>
          obtain ⟨inside, live, _⟩ := processGet_some current
          have dropped := sysExit_drops kept.fds current
          have refs := fun id bound reading => @Dropped.refs _ _ _ dropped inside id bound reading
          constructor
          · intro careful
            refine kept.carry (dropped.fds kept.fds) fun id bound reading => ?_
            have none : processRefs id reading ((s.switch pid).processes.table i) = 0 := by
              rw [processRefs, if_neg live]
              exact Finset.sum_eq_zero fun fd member =>
                entryRefs_none (careful i current fd (Finset.mem_range.mp member)) bound
            have left := refs id bound reading
            rwa [none, Nat.add_zero] at left
          · intro sound j running fd upper holds
            obtain rfl : i = j := Option.some.inj (current.symm.trans running)
            obtain ⟨id, bound, reading, one⟩ := holdsPipe_iff.mp holds
            have same := kept.same_refs sound bound reading
            have counted := @entryRefs_le_processRefs id reading _ live fd upper
            have left := refs id bound reading
            change entryRefs id reading (((s.switch pid).processes.table i).fdTable fd) = 1 at one
            omega
  | processExit status =>
      exact ⟨fun _ => kept.quiet (processExit_stable _ status).quiet, fun _ => trivial⟩

/-- No pipe is in use, and no process has a descriptor of one. -/
structure PipeStart (s : PipeSystem) : Prop where
  pipes : ∀ id, (s.pipes id).inUse = false
  fds : ∀ i fd, (s.processes.table i).pipeEntry fd = none

theorem PipeStart.kept (start : PipeStart s) : PipeKept s := by
  have zero : ∀ id < maxPipes, ∀ reading, descriptorRefs id reading s.processes.table = 0 := by
    intro id bound reading
    refine Finset.sum_eq_zero fun i _ => ?_
    rw [processRefs_pipeEntry bound]
    exact Finset.sum_eq_zero fun fd _ => by rw [start.fds i fd]; rfl
  refine ⟨⟨?_, ?_, fun id bound => ?_⟩, pipeFds_iff.mpr ?_⟩
  · simp [start.pipes]
  · simp [start.pipes]
  · simp [start.pipes, zero id bound]
  · simp [start.fds]

/-- In a run of calls of any processes, the counts of the pipes fit the descriptors after
every call exactly if every call is careful. -/
theorem pipe_counts_run_iff (start : PipeStart s) (calls : List (Nat × IpcCall)) :
    Along ipcStep (fun s call => PipeCounted (ipcStep s call)) s calls ↔
      Along ipcStep IpcCareful s calls :=
  along_iff PipeKept PipeCounted (fun _ kept => kept.toPipeCounted)
    (fun _ call kept => (ipcStep_counted kept call).1)
    (fun _ call kept => (ipcStep_counted kept call).2) start.kept calls

theorem pipeBoot_start : PipeStart pipeBoot := by
  refine ⟨fun _ => rfl, fun i fd => ?_⟩
  by_cases used : i < 2
  · refine pipeEntry_none ?_
    rintro ⟨_, lower, _⟩
    have none : ((pipeBoot.processes.table i).fdTable fd).pipeId = -1 := by
      rcases Nat.le_one_iff_eq_zero_or_eq_one.mp (Nat.le_of_lt_succ used) with rfl | rfl <;> rfl
    rw [none] at lower
    omega
  · refine pipeEntry_dead ?_ fd
    have shell : i ≠ 1 := by omega
    have kernel : i ≠ 0 := by omega
    simp [pipeBoot, processInit, Process.zero, shell, kernel]

theorem pipe_counts_run_iff_boot :
    Along ipcStep (fun s call => PipeCounted (ipcStep s call)) pipeBoot
      [(1, .pipe), (1, .pipeClose 3), (1, .pipeClose 4)] :=
  (pipe_counts_run_iff pipeBoot_start _).mpr ⟨trivial, trivial, trivial, trivial⟩

/-- A process with a pipe forks: two descriptors read from the pipe, and it counts one. -/
theorem fork_uncounted :
    PipeStart pipeBoot ∧
      let s := [(1, IpcCall.pipe), (1, .fork)].foldl ipcStep pipeBoot
      (s.pipes 0).inUse = true ∧ (s.pipes 0).readers = 1 ∧
        descriptorRefs 0 true s.processes.table = 2 ∧ ¬ PipeCounted s := by
  have readers : (([(1, IpcCall.pipe), (1, .fork)].foldl ipcStep pipeBoot).pipes 0).readers = 1 := by
    decide
  have refs : descriptorRefs 0 true
      ([(1, IpcCall.pipe), (1, .fork)].foldl ipcStep pipeBoot).processes.table = 2 := by
    decide
  refine ⟨pipeBoot_start, by decide, readers, refs, fun counted => ?_⟩
  have equal := counted.readers 0 (by decide) (by decide)
  rw [readers, refs] at equal
  cases equal

end Steps

end ZurichOS
