import ZurichOS.BlockLedger
import ZurichOS.PipeRefs
import ZurichOS.Transitions

set_option linter.all false

/-!
The kernel stacks and program images that the process table records: who records a block,
and who frees it.
-/

namespace ZurichOS

open BlockLedger PartialTable Transitions

/-- The kernel stack or the image of a process. -/
def Process.block (proc : Process) (image : Bool) : Option Nat :=
  if image then proc.elfProc else if proc.kernelStack = 0 then none else some proc.kernelStack

/-- The blocks of all entries of the process table, those in use or not. -/
def blockRecords (table : Nat → Process) (place : Nat × Bool) : Option Nat :=
  (table place.1).block place.2

def liveRecords (table : Nat → Process) (place : Nat × Bool) : Option Nat :=
  if (table place.1).state = .unused then none else (table place.1).block place.2

/-- The process table, with the blocks allocated so far, which are numbered from 1 on, and
those freed. -/
structure BlockSystem where
  processes : Processes
  allocated : Nat
  freed : List Nat

/-- A call of the process `pid`.  A program that `process_exec` or a caller of `elf_execute`
loads may fail to load; memory for a kernel stack may be missing. -/
inductive BlockCall where
  | create (name : List Char) (ppid : Nat)
  | fork
  | exec (path : List Char) (image : Option (List Char)) (memory : Bool)
  | execute (name : List Char) (memory : Bool)
  | exit
  | kill (pid : Nat)

def blockStep (s : BlockSystem) : Nat × BlockCall → BlockSystem
  | (pid, call) =>
      let processes := processSetCurrent s.processes pid
      match call with
      | .create name ppid => { s with processes := (processCreate processes name ppid).2 }
      | .fork => { s with processes := (processFork processes).2 }
      | .exec path image memory =>
          match processCurrent processes, image with
          | some i, some name =>
              let image := s.allocated + 1
              let kernelStack := if memory then s.allocated + 2 else 0
              { processes := (processExec processes path (some ⟨image, name⟩) kernelStack).2
                allocated := s.allocated + 2
                freed := s.freed ++ ((processes.table i).block true).toList ++
                  ((processes.table i).block false).toList }
          | _, _ => { s with processes := (processExec processes path none 0).2 }
      | .execute name memory =>
          let image := s.allocated + 1
          let kernelStack := if memory then s.allocated + 2 else 0
          { s with
            processes := elfRegister processes name kernelStack image
            allocated := s.allocated + 2 }
      | .exit =>
          match processCurrent processes with
          | some i =>
              let proc := processes.table i
              { s with
                processes := sysExit processes
                freed :=
                  if 1 < proc.pid then
                    s.freed ++ (proc.block false).toList ++ (proc.block true).toList
                  else s.freed }
          | none => { s with processes := sysExit processes }
      | .kill pid => { s with processes := (processKill processes pid).2 }

/-- An exec leaves its caller the pid and the parent. -/
def CallerKept (s : BlockSystem) : Nat × BlockCall → Prop
  | (pid, .exec path image memory) =>
      ∀ i, processCurrent (processSetCurrent s.processes pid) = some i →
        let after := (blockStep s (pid, .exec path image memory)).processes
        ∃ j, processCurrent after = some j ∧ (after.table j).pid = (s.processes.table i).pid ∧
          (after.table j).ppid = (s.processes.table i).ppid
  | _ => True

/-- After the call, no block is recorded by two processes, freed twice, or recorded and
freed. -/
structure BlocksSound (s : BlockSystem) (call : Nat × BlockCall) : Prop where
  owned : Owned (liveRecords (blockStep s call).processes.table) (blockStep s call).freed
  caller : CallerKept s call

def Process.Bare (proc : Process) : Prop := ∀ image, proc.block image = none

/-- The `process_create` in an exec makes no process of another pid than the caller's; the
entry that the caller's pid then leads to has its parent, and the caller's entry records no
block unless it is that entry and gets the new ones. -/
def ExecKeeps (s : Processes) (name : List Char) : Prop :=
  ∀ i, processCurrent s = some i →
    let created := processCreate s name 1
    (created.1 = 0 ∨ created.1 = (s.table i).pid) ∧
      ∀ j, processGet created.2 (s.table i).pid = some j →
        (created.2.table j).ppid = (s.table i).ppid ∧
          (created.1 ≠ 0 ∧ j = i ∨ (s.table i).Bare)

def BlockCareful (s : BlockSystem) : Nat × BlockCall → Prop
  | (pid, .exec _ (some name) _) => ExecKeeps (processSetCurrent s.processes pid) name
  | _ => True

section Records

variable {table after : Nat → Process}

/-- Two tables that record the same blocks. -/
def SameBlocks (before after : Nat → Process) : Prop := blockRecords after = blockRecords before

theorem sameBlocks_update {i : Nat} {proc : Process} (image : proc.elfProc = (table i).elfProc)
    (stack : proc.kernelStack = (table i).kernelStack) :
    SameBlocks table (Function.update table i proc) := by
  funext place
  by_cases own : place.1 = i
  · subst own
    simp [blockRecords, Process.block, image, stack]
  · simp [blockRecords, own]

theorem blockRecords_update (table : Nat → Process) (i : Nat) (proc : Process) :
    blockRecords (Function.update table i proc) =
      Function.update (Function.update (blockRecords table) (i, false) (proc.block false))
        (i, true) (proc.block true) := by
  funext ⟨j, image⟩
  by_cases own : j = i
  · subst own
    cases image <;> simp [blockRecords]
  · simp [blockRecords, own]

end Records

/-- A sound ledger of blocks with numbers up to `allocated`. -/
structure LedgerKept (records : Nat × Bool → Option Nat) (freed : List Nat) (allocated : Nat) :
    Prop where
  owned : Owned records freed
  recorded : ∀ place block, records place = some block → block ≤ allocated
  gone : ∀ block ∈ freed, block ≤ allocated

/-- All entries count, as those not in use may be taken again as they are. -/
def BlocksKept (s : BlockSystem) : Prop :=
  LedgerKept (blockRecords s.processes.table) s.freed s.allocated

theorem LedgerKept.system {processes : Processes} {freed : List Nat} {allocated : Nat}
    (kept : LedgerKept (blockRecords processes.table) freed allocated) :
    BlocksKept ⟨processes, allocated, freed⟩ := kept

theorem BlocksKept.live {s : BlockSystem} (kept : BlocksKept s) :
    Owned (liveRecords s.processes.table) s.freed :=
  kept.owned.fewer fun place block here => by
    unfold liveRecords at here
    split at here
    · cases here
    · exact here

section Ledger

variable {records : Nat × Bool → Option Nat} {freed : List Nat} {allocated : Nat}

theorem LedgerKept.release (kept : LedgerKept records freed allocated) (place : Nat × Bool) :
    LedgerKept (Function.update records place none) (freed ++ (records place).toList)
      allocated := by
  refine ⟨kept.owned.release place, fun other block here => ?_, fun block inside => ?_⟩
  · exact kept.recorded other block (update_none_some.mp here).2
  · rcases List.mem_append.mp inside with old | last
    · exact kept.gone block old
    · exact kept.recorded place block (Option.mem_toList.mp last)

/-- A place takes the block with the next number, or none. -/
theorem LedgerKept.record (kept : LedgerKept records freed allocated) (place : Nat × Bool)
    {value : Option Nat} (next : ∀ block, value = some block → block = allocated + 1) :
    LedgerKept (Function.update records place value) freed (allocated + 1) := by
  refine ⟨kept.owned.record place fun block new => ?_, fun other block here => ?_,
    fun block inside => Nat.le_succ_of_le (kept.gone block inside)⟩
  · have number := next block new
    refine ⟨fun inside => ?_, fun other _ here => ?_⟩
    · have bound := kept.gone block inside
      omega
    · have bound := kept.recorded other block here
      omega
  · rcases update_some.mp here with ⟨_, new⟩ | ⟨_, old⟩
    · exact Nat.le_of_eq (next block new)
    · exact Nat.le_succ_of_le (kept.recorded other block old)

/-- A process gets a new image and, if there is memory for it, a new kernel stack. -/
theorem LedgerKept.register {table : Nat → Process}
    (kept : LedgerKept (blockRecords table) freed allocated) (j : Nat) (memory : Bool)
    {proc : Process} (image : proc.elfProc = some (allocated + 1))
    (stack : proc.kernelStack = if memory then allocated + 2 else 0) :
    LedgerKept (blockRecords (Function.update table j proc)) freed (allocated + 2) := by
  have program : proc.block true = some (allocated + 1) := image
  have number : ∀ block, proc.block false = some block → block = allocated + 1 + 1 := by
    intro block same
    unfold Process.block at same
    rw [stack] at same
    cases memory <;> simp at same
    omega
  have first := kept.record (j, true) fun block same => (Option.some.inj same).symm
  have second := first.record (j, false) number
  rw [blockRecords_update, program, Function.update_comm (by simp)]
  exact second

/-- A process that recorded blocks gives them up, both in the order given. -/
theorem LedgerKept.empty {table : Nat → Process}
    (kept : LedgerKept (blockRecords table) freed allocated) (i : Nat) {proc : Process}
    (bare : proc.Bare) (first : Bool) :
    LedgerKept (blockRecords (Function.update table i proc))
      (freed ++ ((table i).block first).toList ++ ((table i).block !first).toList) allocated := by
  have released := (kept.release (i, first)).release (i, !first)
  rw [Function.update_of_ne (by simp)] at released
  rw [blockRecords_update, bare, bare]
  cases first
  · exact released
  · rw [Function.update_comm (by simp)]
    exact released

end Ledger

section Calls

variable {s : Processes}

theorem processCreate_shape (s : Processes) (name : List Char) (ppid : Nat) :
    processCreate s name ppid = (0, s) ∨ ∃ slot proc, slot < maxProcesses ∧
      (s.table slot).state = .unused ∧
      processCreate s name ppid =
        (s.nextPid, { s.set slot proc with nextPid := Words.u32 (s.nextPid + 1) }) ∧
      proc.pid = s.nextPid ∧ proc.ppid = ppid ∧ proc.state = .ready ∧
      proc.kernelStack = (s.table slot).kernelStack ∧ proc.elfProc = (s.table slot).elfProc := by
  unfold processCreate
  split
  · exact .inl rfl
  · rename_i slot found
    refine .inr ⟨slot, _, List.mem_range.mp (List.mem_of_find?_eq_some found),
      by simpa using List.find?_some found, rfl, rfl, rfl, rfl, rfl, rfl⟩

theorem processCreate_blocks (s : Processes) (name : List Char) (ppid : Nat) :
    SameBlocks s.table (processCreate s name ppid).2.table := by
  rcases processCreate_shape s name ppid with full | ⟨slot, proc, _, _, made, _, _, _, stack, image⟩
  · rw [full]
    rfl
  · rw [made]
    exact sameBlocks_update image stack

theorem processCreate_found {name : List Char} {ppid : Nat}
    (nonzero : (processCreate s name ppid).1 ≠ 0) :
    ∃ j, processGet (processCreate s name ppid).2 (processCreate s name ppid).1 = some j := by
  rcases processCreate_shape s name ppid with full | ⟨slot, proc, inside, _, made, pid, _, state, _⟩
  · rw [full] at nonzero
    exact absurd rfl nonzero
  · rw [made]
    refine Option.isSome_iff_exists.mp (List.find?_isSome.mpr ⟨slot, List.mem_range.mpr inside, ?_⟩)
    simp [Processes.set, pid, state]

/-- A change of a process in use that keeps its state commutes with a creation. -/
theorem processCreate_set {i : Nat} {proc : Process} (live : (s.table i).state ≠ .unused)
    (state : proc.state = (s.table i).state) (name : List Char) (ppid : Nat) :
    processCreate (s.set i proc) name ppid =
      ((processCreate s name ppid).1, (processCreate s name ppid).2.set i proc) := by
  have same : (fun j => decide (((s.set i proc).table j).state = .unused)) =
      fun j => decide ((s.table j).state = .unused) := funext fun j => by
    by_cases own : j = i
    · subst own
      rw [set_self, state]
    · simp [own]
  unfold processCreate
  rw [same]
  split
  · rfl
  · rename_i slot found
    have dead : (s.table slot).state = .unused := by simpa using List.find?_some found
    have apart : slot ≠ i := fun same => live (same ▸ dead)
    simp [Processes.set, Function.update_of_ne apart, Function.update_comm apart]

theorem processFork_blocks (s : Processes) : SameBlocks s.table (processFork s).2.table := by
  unfold processFork
  split
  · rfl
  · rename_i parent current
    have created := processCreate_blocks s (s.table parent).name (s.table parent).pid
    split
    rename_i childPid after made
    rw [made] at created
    split
    · exact created
    · split
      · exact created
      · refine Eq.trans ?_ created
        exact sameBlocks_update rfl rfl

theorem processKill_blocks (s : Processes) (pid : Nat) :
    SameBlocks s.table (processKill s pid).2.table := by
  unfold processKill
  split
  · rfl
  · split
    · rfl
    · split
      · rfl
      · exact sameBlocks_update rfl rfl

theorem elfRegister_cases (s : Processes) (name : List Char) (kernelStack image : Nat) :
    ((processCreate s name 1).1 = 0 ∧
      elfRegister s name kernelStack image = (processCreate s name 1).2) ∨
    ((processCreate s name 1).1 ≠ 0 ∧ ∃ j,
      processGet (processCreate s name 1).2 (processCreate s name 1).1 = some j ∧
      elfRegister s name kernelStack image =
        (processSetCurrent (processCreate s name 1).2 (processCreate s name 1).1).set j
          { (processCreate s name 1).2.table j with kernelStack, elfProc := some image }) := by
  have spawned := @processCreate_found s name 1
  unfold elfRegister
  generalize processCreate s name 1 = created at spawned ⊢
  obtain ⟨pid, after⟩ := created
  dsimp only at spawned ⊢
  by_cases zero : pid = 0
  · refine .inl ⟨zero, if_neg (by omega)⟩
  · obtain ⟨j, found⟩ := spawned zero
    have again : processGet (processSetCurrent after pid) pid = some j := found
    refine .inr ⟨zero, j, found, ?_⟩
    rw [if_pos (Nat.pos_of_ne_zero zero), again]
    rfl

/-- The program registered by an exec: in no entry, or in the one that the new pid finds. -/
theorem processExec_cases {i : Nat} (current : processCurrent s = some i) (path name : List Char)
    (image kernelStack : Nat) :
    ∃ marked : Process, marked.state = (s.table i).state ∧ marked.pid = (s.table i).pid ∧
      marked.ppid = (s.table i).ppid ∧ marked.kernelStack = (s.table i).kernelStack ∧
      marked.elfProc = (s.table i).elfProc ∧
      let created := (processCreate s name 1).2
      (((processCreate s name 1).1 = 0 ∧
        (processExec s path (some ⟨image, name⟩) kernelStack).2 = created.set i marked) ∨
      ((processCreate s name 1).1 ≠ 0 ∧ ∃ j, processGet created (processCreate s name 1).1 = some j ∧
        (processExec s path (some ⟨image, name⟩) kernelStack).2 =
          (processSetCurrent (created.set i marked) (processCreate s name 1).1).set j
            { (created.set i marked).table j with kernelStack, elfProc := some image })) := by
  have live := (processGet_some current).2.1
  unfold processExec
  rw [current]
  dsimp only
  generalize isMarked : closeOnExec _ = marked
  have state : marked.state = (s.table i).state := by rw [← isMarked]; rfl
  have pid : marked.pid = (s.table i).pid := by rw [← isMarked]; rfl
  refine ⟨marked, state, pid, by rw [← isMarked]; rfl, by rw [← isMarked]; rfl,
    by rw [← isMarked]; rfl, ?_⟩
  have kept : (processCreate s name 1).2.table i = s.table i := processCreate_live name 1 live
  have same : ∀ p, processGet ((processCreate s name 1).2.set i marked) p =
      processGet (processCreate s name 1).2 p := fun p => processGet_congr p fun j => by
    by_cases own : j = i
    · subst own
      rw [set_self, kept]
      exact ⟨state, pid⟩
    · simp [own]
  rcases elfRegister_cases (s.set i marked) name kernelStack image with ⟨zero, result⟩ |
    ⟨nonzero, j, found, result⟩
  · rw [processCreate_set live state] at zero result
    exact .inl ⟨zero, result⟩
  · rw [processCreate_set live state] at nonzero found result
    exact .inr ⟨nonzero, j, (same _).symm.trans found, result⟩

end Calls

section Steps

variable {s : BlockSystem}

theorem LedgerKept.same {before after : Nat → Process} {freed : List Nat} {allocated : Nat}
    (kept : LedgerKept (blockRecords before) freed allocated) (same : SameBlocks before after) :
    LedgerKept (blockRecords after) freed allocated := by
  rw [show blockRecords after = blockRecords before from same]
  exact kept

theorem LedgerKept.grow {records : Nat × Bool → Option Nat} {freed : List Nat}
    {allocated more : Nat} (kept : LedgerKept records freed allocated) (grows : allocated ≤ more) :
    LedgerKept records freed more :=
  ⟨kept.owned, fun place block here => (kept.recorded place block here).trans grows,
    fun block inside => (kept.gone block inside).trans grows⟩

theorem elfRegister_kept {processes : Processes} {freed : List Nat} {allocated : Nat}
    (kept : LedgerKept (blockRecords processes.table) freed allocated) (name : List Char)
    (memory : Bool) :
    LedgerKept (blockRecords (elfRegister processes name
      (if memory then allocated + 2 else 0) (allocated + 1)).table) freed (allocated + 2) := by
  have created := kept.same (processCreate_blocks processes name 1)
  rcases elfRegister_cases processes name (if memory then allocated + 2 else 0) (allocated + 1) with
    ⟨_, result⟩ | ⟨_, j, _, result⟩
  · rw [result]
    exact created.grow (Nat.le_add_right ..)
  · rw [result]
    exact created.register j memory rfl rfl

theorem sysExit_kept {processes : Processes} {freed : List Nat} {allocated i : Nat}
    (kept : LedgerKept (blockRecords processes.table) freed allocated)
    (current : processCurrent processes = some i) :
    LedgerKept (blockRecords (sysExit processes).table)
      (if 1 < (processes.table i).pid then
        freed ++ ((processes.table i).block false).toList ++
          ((processes.table i).block true).toList
      else freed) allocated := by
  obtain ⟨proc, after, _, _, blocks⟩ := sysExit_table current
  rw [after]
  split
  · rename_i user
    rw [if_pos user] at blocks
    have bare : proc.Bare := fun image => by
      cases image
      · exact if_pos (congrArg Prod.fst blocks)
      · exact congrArg Prod.snd blocks
    exact kept.empty i bare false
  · rename_i kernel
    rw [if_neg kernel] at blocks
    exact kept.same (sameBlocks_update (congrArg Prod.snd blocks) (congrArg Prod.fst blocks))

theorem processCreate_currentPid (s : Processes) (name : List Char) (ppid : Nat) :
    (processCreate s name ppid).2.currentPid = s.currentPid := by
  unfold processCreate
  split <;> rfl

/-- What an exec that loads its program does to the process table, as far as it is about
pids, parents and blocks. -/
structure ExecDone (before after : Processes) (name : List Char) (image : Nat) (stack : Nat) :
    Prop where
  state : ∀ j, (after.table j).state = ((processCreate before name 1).2.table j).state
  pid : ∀ j, (after.table j).pid = ((processCreate before name 1).2.table j).pid
  ppid : ∀ j, (after.table j).ppid = ((processCreate before name 1).2.table j).ppid
  current : after.currentPid = if (processCreate before name 1).1 = 0 then before.currentPid
    else (processCreate before name 1).1
  blocks : (processCreate before name 1).1 = 0 → SameBlocks before.table after.table
  registered : (processCreate before name 1).1 ≠ 0 → ∃ j proc table,
    processGet (processCreate before name 1).2 (processCreate before name 1).1 = some j ∧
      after.table = Function.update table j proc ∧ SameBlocks before.table table ∧
      proc.kernelStack = stack ∧ proc.elfProc = some image

theorem processExec_frame {s : Processes} {i : Nat} (current : processCurrent s = some i)
    (path name : List Char) (image stack : Nat) :
    ExecDone s (processExec s path (some ⟨image, name⟩) stack).2 name image stack := by
  obtain ⟨marked, state, pid, ppid, kernelStack, elfProc, result⟩ :=
    processExec_cases current path name image stack
  have kept : (processCreate s name 1).2.table i = s.table i :=
    processCreate_live name 1 (processGet_some current).2.1
  have own := processCreate_currentPid s name 1
  have blocks := processCreate_blocks s name 1
  dsimp only at result
  rw [← kept] at state pid ppid kernelStack elfProc
  have same : SameBlocks s.table ((processCreate s name 1).2.set i marked).table :=
    (sameBlocks_update elfProc kernelStack).trans blocks
  have entry : ∀ j, (((processCreate s name 1).2.set i marked).table j).state = ((processCreate s name 1).2.table j).state ∧
      (((processCreate s name 1).2.set i marked).table j).pid = ((processCreate s name 1).2.table j).pid ∧
      (((processCreate s name 1).2.set i marked).table j).ppid = ((processCreate s name 1).2.table j).ppid := fun j => by
    by_cases isOwn : j = i
    · subst isOwn
      rw [set_self]
      exact ⟨state, pid, ppid⟩
    · simp [isOwn]
  rcases result with ⟨zero, after⟩ | ⟨nonzero, j, found, after⟩
  · rw [after]
    exact ⟨fun k => (entry k).1, fun k => (entry k).2.1, fun k => (entry k).2.2,
      by rw [if_pos zero]; exact own, fun _ => same, fun nonzero => absurd zero nonzero⟩
  · have last : ∀ k, ((processSetCurrent ((processCreate s name 1).2.set i marked) (processCreate s name 1).1).set j
        { ((processCreate s name 1).2.set i marked).table j with
          kernelStack := stack, elfProc := some image }).table k =
        if k = j then { ((processCreate s name 1).2.set i marked).table j with
          kernelStack := stack, elfProc := some image }
        else ((processCreate s name 1).2.set i marked).table k := fun k => by
      by_cases isOwn : k = j
      · rw [if_pos isOwn, isOwn, set_self]
      · rw [if_neg isOwn]
        exact Function.update_of_ne isOwn ..
    rw [after]
    refine ⟨fun k => ?_, fun k => ?_, fun k => ?_, by rw [if_neg nonzero]; rfl,
      fun zero => absurd zero nonzero, fun _ => ⟨j, _, _, found, rfl, same, rfl, rfl⟩⟩
    · rw [last]
      split
      · rename_i isOwn
        rw [isOwn]
        exact (entry j).1
      · exact (entry k).1
    · rw [last]
      split
      · rename_i isOwn
        rw [isOwn]
        exact (entry j).2.1
      · exact (entry k).2.1
    · rw [last]
      split
      · rename_i isOwn
        rw [isOwn]
        exact (entry j).2.2
      · exact (entry k).2.2

theorem ExecDone.processCurrent {before after : Processes} {name : List Char} {image stack : Nat}
    (frame : ExecDone before after name image stack) :
    processCurrent after = processGet (processCreate before name 1).2
      (if (processCreate before name 1).1 = 0 then before.currentPid
      else (processCreate before name 1).1) := by
  rw [← frame.current]
  exact processGet_congr _ fun j => ⟨frame.state j, frame.pid j⟩

theorem processGet_live {s : Processes} {i : Nat} (inside : i < maxProcesses)
    (live : (s.table i).state ≠ .unused) : ∃ j, processGet s (s.table i).pid = some j :=
  Option.isSome_iff_exists.mp
    (List.find?_isSome.mpr ⟨i, List.mem_range.mpr inside, by simpa using live⟩)

section Exec

variable {processes : Processes} {freed : List Nat} {allocated i : Nat}

theorem processExec_kept (kept : LedgerKept (blockRecords processes.table) freed allocated)
    (current : processCurrent processes = some i) {name : List Char}
    (careful : ExecKeeps processes name) (path : List Char) (memory : Bool) :
    LedgerKept (blockRecords (processExec processes path (some ⟨allocated + 1, name⟩)
        (if memory then allocated + 2 else 0)).2.table)
      (freed ++ ((processes.table i).block true).toList ++
        ((processes.table i).block false).toList) (allocated + 2) := by
  have frame := processExec_frame current path name (allocated + 1)
    (if memory then allocated + 2 else 0)
  obtain ⟨inside, live, isPid⟩ := processGet_some current
  obtain ⟨own, leads⟩ := careful i current
  have unfreed : (processes.table i).Bare → freed ++ ((processes.table i).block true).toList ++
      ((processes.table i).block false).toList = freed := fun bare => by simp [bare true, bare false]
  by_cases zero : (processCreate processes name 1).1 = 0
  · have still := processCreate_live name 1 live
    obtain ⟨j, found⟩ := processGet_live (s := (processCreate processes name 1).2) inside
      (by rw [still]; exact live)
    rw [still] at found
    rcases (leads j found).2 with ⟨nonzero, _⟩ | bare
    · exact absurd zero nonzero
    · rw [unfreed bare]
      exact (kept.same (frame.blocks zero)).grow (Nat.le_add_right ..)
  · obtain ⟨j, proc, table, found, after, same, stack, image⟩ := frame.registered zero
    rw [own.resolve_left zero] at found
    rw [after]
    rcases (leads j found).2 with ⟨_, rfl⟩ | bare
    · have bare : ({ proc with kernelStack := 0, elfProc := none } : Process).Bare :=
        fun image => by cases image <;> rfl
      have released := (kept.same same).empty j bare true
      have block : ∀ image, (table j).block image = (processes.table j).block image :=
        fun image => congrFun same (j, image)
      rw [block, block] at released
      rw [← Function.update_idem]
      exact released.register j memory image stack
    · rw [unfreed bare]
      exact (kept.same same).register j memory image stack

theorem ExecKeeps.caller {name : List Char} (careful : ExecKeeps processes name)
    (current : processCurrent processes = some i) {after : Processes} {image stack : Nat}
    (frame : ExecDone processes after name image stack) :
    ∃ j, processCurrent after = some j ∧ (after.table j).pid = (processes.table i).pid ∧
      (after.table j).ppid = (processes.table i).ppid := by
  obtain ⟨inside, live, isPid⟩ := processGet_some current
  obtain ⟨own, leads⟩ := careful i current
  have again : ∃ j, processGet (processCreate processes name 1).2 (processes.table i).pid =
      some j := by
    have still := processCreate_live name 1 live
    rw [← still]
    exact processGet_live inside (by rw [still]; exact live)
  obtain ⟨j, found⟩ := again
  have isCurrent : processCurrent after = some j := by
    rw [frame.processCurrent]
    split
    · rw [← isPid]
      exact found
    · rename_i nonzero
      rw [own.resolve_left nonzero]
      exact found
  exact ⟨j, isCurrent, (frame.pid j).trans (processGet_some found).2.2,
    (frame.ppid j).trans (leads j found).1⟩

/-- What a live entry records was not freed, so an entry of which all was freed is bare. -/
theorem bare_of_freed {table : Nat → Process} (owned : Owned (liveRecords table) freed)
    (live : (table i).state ≠ .unused) {proc : Process}
    (same : ∀ image, (table i).block image = proc.block image)
    (all : ∀ image block, proc.block image = some block → block ∈ freed) : proc.Bare := by
  intro image
  cases recorded : proc.block image with
  | none => rfl
  | some block =>
      refine absurd (all image block recorded) (owned.gone (i, image) block ?_)
      rw [liveRecords, if_neg live, same, recorded]

theorem execKeeps_of_sound (current : processCurrent processes = some i) {name : List Char}
    {after : Processes} {image stack : Nat} (frame : ExecDone processes after name image stack)
    (owned : Owned (liveRecords after.table)
      (freed ++ ((processes.table i).block true).toList ++ ((processes.table i).block false).toList))
    (caller : ∃ j, processCurrent after = some j ∧
      (after.table j).pid = (processes.table i).pid ∧
      (after.table j).ppid = (processes.table i).ppid) : ExecKeeps processes name := by
  intro own isOwn
  obtain rfl : own = i := Option.some.inj (isOwn.symm.trans current)
  obtain ⟨_, live, isPid⟩ := processGet_some current
  obtain ⟨j, isCurrent, pid, ppid⟩ := caller
  rw [frame.processCurrent] at isCurrent
  rw [frame.pid] at pid
  rw [frame.ppid] at ppid
  have stays : (after.table own).state ≠ .unused := by
    rw [frame.state, processCreate_live name 1 live]
    exact live
  have bare : (∀ image, (after.table own).block image = (processes.table own).block image) →
      (processes.table own).Bare := fun same =>
    bare_of_freed owned stays same fun image block recorded => by
      cases image <;> simp [recorded]
  by_cases zero : (processCreate processes name 1).1 = 0
  · rw [if_pos zero, ← isPid] at isCurrent
    refine ⟨.inl zero, fun found leads => ?_⟩
    obtain rfl : found = j := Option.some.inj (leads.symm.trans isCurrent)
    exact ⟨ppid, .inr (bare fun image => congrFun (frame.blocks zero) (own, image))⟩
  · obtain ⟨last, proc, table, registered, result, same, _⟩ := frame.registered zero
    rw [if_neg zero] at isCurrent
    have isPid := (processGet_some isCurrent).2.2.symm.trans pid
    refine ⟨.inr isPid, fun found leads => ?_⟩
    obtain rfl : last = j := Option.some.inj (registered.symm.trans isCurrent)
    obtain rfl : found = last := Option.some.inj (leads.symm.trans (isPid ▸ isCurrent))
    refine ⟨ppid, ?_⟩
    by_cases isOwn : found = own
    · exact .inl ⟨zero, isOwn⟩
    · refine .inr (bare fun image => ?_)
      rw [result, Function.update_of_ne (Ne.symm isOwn)]
      exact congrFun same (own, image)

end Exec

theorem blockStep_exec {pid i : Nat} {path name : List Char} {memory : Bool}
    (current : processCurrent (processSetCurrent s.processes pid) = some i) :
    blockStep s (pid, .exec path (some name) memory) =
      { processes := (processExec (processSetCurrent s.processes pid) path
          (some ⟨s.allocated + 1, name⟩) (if memory then s.allocated + 2 else 0)).2
        allocated := s.allocated + 2
        freed := s.freed ++ ((s.processes.table i).block true).toList ++
          ((s.processes.table i).block false).toList } := by
  simp only [blockStep, current]
  rfl

/-- An exec that finds no process, or no program, changes nothing. -/
theorem blockStep_exec_failed {pid : Nat} {path : List Char} {image : Option (List Char)}
    {memory : Bool}
    (fails : processCurrent (processSetCurrent s.processes pid) = none ∨ image = none) :
    blockStep s (pid, .exec path image memory) =
      { s with processes := processSetCurrent s.processes pid } := by
  unfold blockStep
  cases current : processCurrent (processSetCurrent s.processes pid) with
  | none => simp only [processExec, current]
  | some i =>
      obtain rfl := fails.resolve_left (by simp [current])
      simp only [processExec, current]

theorem blockStep_exit {pid i : Nat}
    (current : processCurrent (processSetCurrent s.processes pid) = some i) :
    blockStep s (pid, .exit) =
      { s with
        processes := sysExit (processSetCurrent s.processes pid)
        freed :=
          if 1 < (s.processes.table i).pid then
            s.freed ++ ((s.processes.table i).block false).toList ++
              ((s.processes.table i).block true).toList
          else s.freed } := by
  simp only [blockStep, current]
  rfl

theorem blockStep_exit_none {pid : Nat}
    (current : processCurrent (processSetCurrent s.processes pid) = none) :
    blockStep s (pid, .exit) = { s with processes := sysExit (processSetCurrent s.processes pid) } := by
  simp only [blockStep, current]

theorem blockStep_kept (kept : BlocksKept s) {call : Nat × BlockCall}
    (careful : BlockCareful s call) : BlocksKept (blockStep s call) := by
  obtain ⟨pid, call⟩ := call
  have own : LedgerKept (blockRecords (processSetCurrent s.processes pid).table) s.freed
    s.allocated := kept
  cases call with
  | create name ppid => exact own.same (processCreate_blocks _ name ppid)
  | fork => exact own.same (processFork_blocks _)
  | exec path image memory =>
      cases current : processCurrent (processSetCurrent s.processes pid) with
      | none =>
          rw [blockStep_exec_failed (.inl current)]
          exact kept
      | some i =>
          cases image with
          | none =>
              rw [blockStep_exec_failed (.inr rfl)]
              exact kept
          | some name =>
              rw [blockStep_exec current]
              exact processExec_kept own current careful path memory
  | execute name memory => exact elfRegister_kept own name memory
  | exit =>
      cases current : processCurrent (processSetCurrent s.processes pid) with
      | none =>
          rw [blockStep_exit_none current]
          rw [sysExit_none current]
          exact own.system
      | some i =>
          rw [blockStep_exit current]
          exact (sysExit_kept own current).system
  | kill target => exact own.same (processKill_blocks _ target)

theorem blocksSound_iff (kept : BlocksKept s) (call : Nat × BlockCall) :
    BlocksSound s call ↔ BlockCareful s call := by
  refine ⟨fun sound => ?_, fun careful => ⟨(blockStep_kept kept careful).live, ?_⟩⟩
  · obtain ⟨pid, call⟩ := call
    cases call with
    | exec path image memory =>
        cases image with
        | none => trivial
        | some name =>
            intro i current
            have owned := sound.owned
            have caller := sound.caller i current
            rw [blockStep_exec current] at owned caller
            exact execKeeps_of_sound current (processExec_frame current path name _ _) owned caller
              i current
    | _ => trivial
  · obtain ⟨pid, call⟩ := call
    cases call with
    | exec path image memory =>
        intro i current
        cases image with
        | none =>
            rw [blockStep_exec_failed (.inr rfl)]
            exact ⟨i, current, rfl, rfl⟩
        | some name =>
            rw [blockStep_exec current]
            exact ExecKeeps.caller careful current (processExec_frame current path name _ _)
    | _ => trivial

end Steps

/-- Before the first call no block is recorded or freed. -/
structure BlockStart (s : BlockSystem) : Prop where
  empty : ∀ place, blockRecords s.processes.table place = none
  unfreed : s.freed = []

theorem BlockStart.kept {s : BlockSystem} (start : BlockStart s) : BlocksKept s := by
  have recorded : ∀ place block, blockRecords s.processes.table place ≠ some block :=
    fun place block => by simp [start.empty place]
  have freed : ∀ block, block ∉ s.freed := fun block => by simp [start.unfreed]
  exact ⟨⟨fun place _ block here => absurd here (recorded place block), by simp [start.unfreed],
    fun _ block _ => freed block⟩, fun place block here => absurd here (recorded place block),
    fun block inside => absurd inside (freed block)⟩

/-- In a run of calls, the blocks are in order after every call exactly if every call is
careful. -/
theorem blocks_run_iff {s : BlockSystem} (start : BlockStart s) (calls : List (Nat × BlockCall)) :
    Along blockStep BlocksSound s calls ↔ Along blockStep BlockCareful s calls :=
  along_congr BlocksKept (fun _ _ kept careful => blockStep_kept kept careful)
    (fun _ call kept => blocksSound_iff kept call) start.kept calls

def blockBoot : BlockSystem := ⟨processInit, 0, []⟩

theorem blockBoot_start : BlockStart blockBoot := by
  refine ⟨fun ⟨i, image⟩ => ?_, rfl⟩
  by_cases shell : i = 1
  · subst shell
    cases image <;> rfl
  · by_cases kernel : i = 0
    · subst kernel
      cases image <;> rfl
    · cases image <;>
        simp [blockRecords, blockBoot, processInit, Process.zero, Process.block, shell, kernel]

theorem blocks_run_iff_boot :
    Along blockStep BlocksSound blockBoot
      [(1, .execute "sh".toList true), (2, .exec "/none".toList none false), (2, .exit)] :=
  (blocks_run_iff blockBoot_start _).mpr ⟨trivial, trivial, trivial, trivial⟩

/-- A program that the shell started execs another one: its entry still records the stack and
the image that were freed, and the process now has another pid. -/
theorem exec_freed_recorded :
    BlockStart blockBoot ∧
      let calls : List (Nat × BlockCall) :=
        [(1, .execute "sh".toList true), (2, .exec "/cat".toList (some "cat".toList) true)]
      let s := calls.foldl blockStep blockBoot
      (s.processes.table 2).state = .ready ∧ (s.processes.table 2).kernelStack = 2 ∧
        (s.processes.table 2).elfProc = some 1 ∧ s.freed = [1, 2] ∧ s.processes.currentPid = 3 ∧
        ¬ Along blockStep BlocksSound blockBoot calls := by
  refine ⟨blockBoot_start, by decide, by decide, by decide, by decide, by decide, fun sound => ?_⟩
  refine sound.2.1.owned.gone (2, true) 1 ?_ ?_
  · decide
  · decide

end ZurichOS
