import Mathlib.Logic.Function.Basic
import ZurichOS.Words

/-!
The process table of `kernel/process/process.c` with its descriptor tables, and the parts
of `kernel/syscall/syscall.c` and `syscall_proc.c` that open and close descriptors.
-/

namespace ZurichOS

open Words

abbrev maxProcesses : Nat := 64
abbrev maxFdsPerProc : Nat := 32
abbrev procNameLen : Nat := 32
abbrev nsig : Nat := 32
abbrev sigpipe : Int := 13
abbrev sigchld : Int := 17
abbrev sigcont : Int := 18
abbrev fdCloseOnExec : Nat := 0x80000000

inductive ProcState where
  | unused
  | running
  | ready
  | blocked
  | zombie
  | stopped
deriving DecidableEq

/-- `fd_entry_t`; the node is the address of a `vfs_node`, if any. -/
structure FdEntry where
  node : Option Nat
  offset : Nat
  flags : Nat
  inUse : Bool
  pipeId : Int

structure Process where
  pid : Nat
  ppid : Nat
  pgid : Nat
  state : ProcState
  name : List Char
  kernelStack : Nat
  elfProc : Option Nat
  exitCode : Int
  pendingSignals : Nat
  blockedSignals : Nat
  signalHandlers : Nat → Nat
  fdTable : Nat → FdEntry

structure Processes where
  table : Nat → Process
  nextPid : Nat
  currentPid : Nat

def Process.setFd (proc : Process) (fd : Nat) (entry : FdEntry) : Process :=
  { proc with fdTable := Function.update proc.fdTable fd entry }

def Processes.set (s : Processes) (index : Nat) (proc : Process) : Processes :=
  { s with table := Function.update s.table index proc }

def initProcessFdTable (proc : Process) : Process :=
  { proc with fdTable := fun fd =>
      { node := none, offset := 0, flags := 0, inUse := decide (fd < 3), pipeId := -1 } }

def initProcessSignals (proc : Process) : Process :=
  { proc with pendingSignals := 0, blockedSignals := 0, signalHandlers := fun _ => 0 }

def Process.zero : Process :=
  { pid := 0, ppid := 0, pgid := 0, state := .unused, name := [], kernelStack := 0
    elfProc := none, exitCode := 0, pendingSignals := 0, blockedSignals := 0
    signalHandlers := fun _ => 0, fdTable := fun _ => ⟨none, 0, 0, false, 0⟩ }

def processInit : Processes :=
  let kernel := initProcessSignals (initProcessFdTable
    { Process.zero with state := .running, name := "kernel".toList })
  let shell := initProcessSignals (initProcessFdTable
    { Process.zero with pid := 1, pgid := 1, state := .running, name := "shell".toList })
  { table := Function.update (Function.update (fun _ => Process.zero) 0 kernel) 1 shell
    nextPid := 2
    currentPid := 1 }

def processGet (s : Processes) (pid : Nat) : Option Nat :=
  (List.range maxProcesses).find? fun i =>
    decide ((s.table i).state ≠ .unused) && (s.table i).pid == pid

def processCreate (s : Processes) (name : List Char) (ppid : Nat) : Nat × Processes :=
  match (List.range maxProcesses).find? fun i => (s.table i).state = .unused with
  | none => (0, s)
  | some slot =>
      let pid := s.nextPid
      let proc := { s.table slot with
        pid, ppid, pgid := pid, state := .ready, name := name.take (procNameLen - 1), exitCode := 0 }
      (pid, { s.set slot (initProcessSignals (initProcessFdTable proc)) with
        nextPid := u32 (pid + 1) })

def processKill (s : Processes) (pid : Nat) : Int × Processes :=
  if pid = 0 then (-1, s)
  else if pid = 1 then (-2, s)
  else
    match processGet s pid with
    | none => (-3, s)
    | some i => (0, s.set i { s.table i with state := .unused })

def processCurrent (s : Processes) : Option Nat := processGet s s.currentPid

def processSetCurrent (s : Processes) (pid : Nat) : Processes := { s with currentPid := pid }

def processFork (s : Processes) : Int × Processes :=
  match processCurrent s with
  | none => (-1, s)
  | some parent =>
      let (childPid, s) := processCreate s (s.table parent).name (s.table parent).pid
      if childPid = 0 then (-11, s)
      else
        match processGet s childPid with
        | none => (-1, s)
        | some child =>
            let parentProc := s.table parent
            let childProc := s.table child
            let fds := fun fd =>
              if fd < maxFdsPerProc then parentProc.fdTable fd else childProc.fdTable fd
            (int32 childPid, s.set child { childProc with
              pgid := parentProc.pgid
              fdTable := fds
              blockedSignals := parentProc.blockedSignals
              signalHandlers := parentProc.signalHandlers })

/-- The part of `elf_execute` that registers the program as a process. -/
def elfRegister (s : Processes) (name : List Char) (kernelStack elf : Nat) : Processes :=
  let (pid, s) := processCreate s name 1
  if 0 < pid then
    let s := processSetCurrent s pid
    match processGet s pid with
    | none => s
    | some i => s.set i { s.table i with kernelStack, elfProc := some elf }
  else s

def closeOnExec (proc : Process) : Process :=
  { proc with fdTable := fun fd =>
      let entry := proc.fdTable fd
      if 3 ≤ fd ∧ fd < maxFdsPerProc ∧ entry.inUse ∧ entry.flags &&& fdCloseOnExec ≠ 0 then
        { entry with inUse := false, node := none }
      else entry }

/-- What `elf_load_from_file` yields: the image's address and name. -/
structure ElfImage where
  address : Nat
  name : List Char

def baseName (path : List Char) : List Char := (path.reverse.takeWhile (· ≠ '/')).reverse

def processExec (s : Processes) (path : List Char) (elf : Option ElfImage) (kernelStack : Nat) :
    Int × Processes :=
  match processCurrent s with
  | none => (-1, s)
  | some i =>
      match elf with
      | none => (-2, s)
      | some elf =>
          let proc := { s.table i with
            name := (baseName path).take (procNameLen - 1)
            pendingSignals := 0
            signalHandlers := fun sig => if sig < nsig then 0 else (s.table i).signalHandlers sig }
          (0, elfRegister (s.set i (closeOnExec proc)) elf.name kernelStack elf.address)

def processSignal (s : Processes) (pid : Nat) (sig : Int) : Int × Processes :=
  if sig < 0 ∨ nsig ≤ sig then (-22, s)
  else if sig = 0 then (if (processGet s pid).isSome then 0 else -3, s)
  else
    match processGet s pid with
    | none => (-3, s)
    | some i =>
        let proc := s.table i
        let pending := proc.pendingSignals ||| 1 <<< (sig.toNat - 1)
        let state := if sig = sigcont ∧ proc.state = .stopped then .ready else proc.state
        (0, s.set i { proc with pendingSignals := pending, state })

def processReparentChildren (s : Processes) (parentPid : Nat) : Processes :=
  { s with table := fun i =>
      if i < maxProcesses ∧ (s.table i).state ≠ .unused ∧ (s.table i).ppid = parentPid then
        { s.table i with ppid := 1 }
      else s.table i }

def processExit (s : Processes) (status : Int) : Processes :=
  match processCurrent s with
  | none => s
  | some i =>
      let pid := (s.table i).pid
      if pid ≤ 1 then s
      else
        let s := s.set i { s.table i with exitCode := status }
        let s := processReparentChildren s pid
        let s := (processSignal s (s.table i).ppid sigchld).2
        s.set i { s.table i with state := .zombie }

/-- The child `process_waitpid` looks for: a zombie of the parent, by its pid if one is given. -/
def waitsFor (s : Processes) (parent : Nat) (pid : Int) (i : Nat) : Bool :=
  let child := s.table i
  decide (child.state ≠ .unused) && child.ppid == (s.table parent).pid &&
    !(decide (0 < pid) && child.pid != pid.toNat) && decide (child.state = .zombie)

/-- `process_waitpid`, with the status it stores. -/
def processWaitpid (s : Processes) (pid : Int) : Int × Option Int × Processes :=
  match processCurrent s with
  | none => (-1, none, s)
  | some parent =>
      match (List.range maxProcesses).find? (waitsFor s parent pid) with
      | none => (-10, none, s)
      | some i =>
          let child := s.table i
          (int32 child.pid, some child.exitCode, s.set i { child with state := .unused })

/-- `free_fd` on the table that `get_fd_table` gives. -/
def freeFd (s : Processes) (fd : Int) : Processes :=
  match processCurrent s with
  | none => s
  | some i =>
      if 3 ≤ fd ∧ fd < maxFdsPerProc then
        let proc := s.table i
        let entry := proc.fdTable fd.toNat
        s.set i (proc.setFd fd.toNat
          { entry with node := none, offset := 0, flags := 0, inUse := false })
      else s

/-- `sys_close`; no file system of the kernel has a close function, so `vfs_close` of the
node does nothing. -/
def sysClose (s : Processes) (fd : Nat) : Int × Processes :=
  if fd < 3 then (0, s)
  else
    match processCurrent s with
    | none => (-9, s)
    | some i =>
        if maxFdsPerProc ≤ fd ∨ ((s.table i).fdTable fd).inUse = false then (-9, s)
        else (0, freeFd s fd)

def freeFdInUse (s : Processes) (fd : Nat) : Processes :=
  match processCurrent s with
  | none => s
  | some i => if 3 ≤ fd ∧ ((s.table i).fdTable fd).inUse then freeFd s fd else s

/-- The descriptors that `sys_exit` frees, one after the other. -/
def freeFds (s : Processes) : Processes :=
  (List.range maxFdsPerProc).foldl freeFdInUse s

/-- What `sys_exit` does to the process table before it returns to the shell. -/
def sysExit (s : Processes) : Processes :=
  let s := freeFds s
  let s :=
    match processCurrent s with
    | none => s
    | some i =>
        if 1 < (s.table i).pid then
          let s := s.set i { s.table i with kernelStack := 0, elfProc := none }
          (processKill s (s.table i).pid).2
        else s
  processSetCurrent s 1

end ZurichOS
