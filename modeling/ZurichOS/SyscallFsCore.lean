import ZurichOS.Descriptors
import ZurichOS.FileTreeCore
import ZurichOS.MountCore
import ZurichOS.UserString

/-!
`sys_read`, `sys_write` and `sys_open` of `kernel/syscall/syscall_fs.c`, over any file system
behind `kernel/fs/vfs.c`, and `sys_pipe`.
-/

namespace ZurichOS

open ByteBuffer Words Faulting

abbrev fdStdin : Nat := 0
abbrev fdStdout : Nat := 1
abbrev fdStderr : Nat := 2
abbrev vfsOCreat : Nat := 0x0100
abbrev vfsOTrunc : Nat := 0x0200

/-- The functions of `vfs.c` over the state of the file systems; a node is its address. -/
structure VfsCalls (Files Fault : Type) where
  root : Program Files Fault (Option Nat)
  lookup (path : List UInt8) : Program Files Fault (Option Nat)
  finddir (node : Nat) (name : List UInt8) : Program Files Fault (Option Nat)
  isDirectory (node : Nat) : Program Files Fault Bool
  create (dir : Nat) (name : List UInt8) (type : Nat) : Program Files Fault Int
  read (node offset size : Nat) : Program Files Fault (Int × List UInt8)
  write (node offset : Nat) (buffer : List UInt8) : Program Files Fault Int
  append (node : Nat) (buffer : List UInt8) : Program Files Fault Int
  truncate (node : Nat) : Program Files Fault Int
  length (node : Nat) : Program Files Fault Nat
  openFile (node flags : Nat) : Program Files Fault Int

inductive FileEffect where
  | created (dir : Nat) (name : List UInt8)
  | truncated (node : Nat)

/-- The files, the processes with their descriptors and pipes, and the screen; `effects` is the
account of the files that were created and truncated. -/
structure SyscallState (Files : Type) where
  files : Files
  ipc : PipeSystem
  console : List UInt8
  effects : List FileEffect

abbrev SyscallProgram (Files Fault α : Type) := Program (SyscallState Files) Fault α

variable {Files Fault α : Type}

def onFiles (x : Program Files Fault α) : SyscallProgram Files Fault α := fun s =>
  (x s.files).map fun (a, files) => (a, { s with files })

def onProcesses (f : Processes → α × Processes) : SyscallProgram Files Fault α :=
  modifyGet fun s =>
    let (a, processes) := f s.ipc.processes
    (a, { s with ipc := s.ipc.withProcesses processes })

def recordEffect (effect : FileEffect) : SyscallProgram Files Fault Unit :=
  modifyGet fun s => ((), { s with effects := effect :: s.effects })

def descriptorAt (fd : Nat) : SyscallProgram Files Fault (Option (Nat × FdEntry)) :=
  modifyGet fun s => (openDescriptor s.ipc fd, s)

/-- `fd_table[fd].offset += count` in the table of the process. -/
def advanceOffset (i fd : Nat) (entry : FdEntry) (count : Int) : SyscallProgram Files Fault Unit :=
  if 0 < count then
    onProcesses fun s => ((), s.set i ((s.table i).setFd fd
      { entry with offset := u32 (entry.offset + count.toNat) }))
  else pure ()

/-- `keys` is what the loop over the key events stores for a count. -/
def VfsCalls.sysRead (calls : VfsCalls Files Fault) (m : Mm) (keys : Nat → List UInt8)
    (fd buf count : Nat) : SyscallProgram Files Fault (Int × List UInt8) :=
  if count = 0 then pure (0, [])
  else if validateUserPtr m buf count = false then pure (-14, [])
  else if fd = fdStdin then pure ((keys count).length, keys count)
  else do
    match ← descriptorAt fd with
    | none => pure (-9, [])
    | some (i, entry) =>
        match entry.node with
        | none => pure (-9, [])
        | some node =>
            let (bytesRead, bytes) ← onFiles (calls.read node entry.offset count)
            advanceOffset i fd entry bytesRead
            pure (bytesRead, bytes)

/-- `data` is what the buffer holds. -/
def VfsCalls.sysWrite (calls : VfsCalls Files Fault) (m : Mm) (fd buf : Nat)
    (data : List UInt8) : SyscallProgram Files Fault Int :=
  if data.length = 0 then pure 0
  else if validateUserPtr m buf data.length = false then pure (-14)
  else if fd = fdStdout ∨ fd = fdStderr then
    modifyGet fun s => (data.length, { s with console := s.console ++ data })
  else do
    match ← descriptorAt fd with
    | none => pure (-9)
    | some (i, entry) =>
        match entry.node with
        | none => pure (-9)
        | some node =>
            let bytesWritten ← onFiles
              (if entry.flags &&& vfsOAppend ≠ 0 then calls.append node data
              else calls.write node entry.offset data)
            advanceOffset i fd entry bytesWritten
            pure bytesWritten

def sysPipe (m : Mm) (s : PipeSystem) (pipefd : Nat) : Int × Option (Nat × Nat) × PipeSystem :=
  if validateUserPtr m pipefd 8 = false then (-14, none, s) else pipeCreate s

def userString (memory : Nat → Nat) (ptr maxLen : Nat) : List UInt8 :=
  cString ((List.range maxLen).map fun i => .ofNat (memory (u32 (ptr + i))))

/-- A path before and behind its last slash, if it has one. -/
def splitPath (path : List UInt8) : Option (List UInt8 × List UInt8) :=
  if slash ∈ path then
    let filename := (path.reverse.takeWhile (· ≠ slash)).reverse
    some (path.take (path.length - filename.length - 1), filename)
  else none

namespace VfsCalls

variable (calls : VfsCalls Files Fault)

/-- The directory that `sys_open` creates a file in, and the name of the file. -/
def placeFor (path : List UInt8) : Program Files Fault (Option (Nat × List UInt8)) := do
  match splitPath path with
  | none => pure none
  | some (dir, filename) =>
      match ← (if dir = [] then calls.root else calls.lookup dir) with
      | none => pure none
      | some parent =>
          if ← calls.isDirectory parent then pure (some (parent, filename)) else pure none

def createFile (path : List UInt8) : SyscallProgram Files Fault (Option Nat) := do
  match ← onFiles (calls.placeFor path) with
  | none => pure none
  | some (parent, filename) =>
      if (← onFiles (calls.create parent filename vfsFile)) = 0 then
        recordEffect (.created parent filename)
        onFiles (calls.finddir parent filename)
      else pure none

def openNode (path : List UInt8) (flags : Nat) : SyscallProgram Files Fault (Option Nat) := do
  match ← onFiles (calls.lookup path) with
  | some node => pure (some node)
  | none => if flags &&& vfsOCreat ≠ 0 then calls.createFile path else pure none

def truncateOpened (node flags : Nat) : SyscallProgram Files Fault Unit :=
  if flags &&& vfsOTrunc ≠ 0 then do
    let _ ← onFiles (calls.truncate node)
    recordEffect (.truncated node)
  else pure ()

/-- The descriptor gets the node; a process has the table that `alloc_fd` found. -/
def fillDescriptor (fd node flags : Nat) : SyscallProgram Files Fault Int := do
  match ← onProcesses fun s => (processCurrent s, s) with
  | none => pure (-9)
  | some i =>
      let offset ← onFiles (if flags &&& vfsOAppend ≠ 0 then calls.length node else pure 0)
      onProcesses fun s => ((), s.set i ((s.table i).setFd fd
        { (s.table i).fdTable fd with node := some node, flags, offset }))
      let _ ← onFiles (calls.openFile node flags)
      pure fd

def openFound (node flags : Nat) : SyscallProgram Files Fault Int := do
  if ← onFiles (calls.isDirectory node) then pure (-21)
  else
    match ← onProcesses allocFd with
    | none => pure (-24)
    | some fd =>
        calls.truncateOpened node flags
        calls.fillDescriptor fd node flags

def sysOpen (m : Mm) (memory : Nat → Nat) (path flags : Nat) : SyscallProgram Files Fault Int :=
  if (validateUserString m memory path vfsMaxPath).1 = false then pure (-14)
  else do
    match ← calls.openNode (userString memory path vfsMaxPath) flags with
    | none => pure (-2)
    | some node => calls.openFound node flags

end VfsCalls

/-! The calls on a tree of ramfs, devfs and procfs. -/

namespace FileTree

/-- The loop of `vfs_lookup`; a round takes at least one character. -/
def lookupFrom : (rounds current : Nat) → List UInt8 → TreeProgram (Option Nat)
  | 0, current, _ => pure (some current)
  | rounds + 1, current, path =>
      if path = [] then pure (some current)
      else
        let (component, rest) := nextComponent path
        if component = dot then lookupFrom rounds current rest
        else if component = dotDot then do
          let vfs ← nodeAt current
          lookupFrom rounds (vfs.parent.getD current) rest
        else do
          match ← vfsFinddir current component with
          | none => pure none
          | some next =>
              let vfs ← nodeAt next
              lookupFrom rounds
                (if vfs.flags &&& vfsMountpoint ≠ 0 then vfs.ptr.getD next else next) rest

def vfsGetRoot : TreeProgram (Option Nat) := modifyGet fun s => (s.root, s)

def vfsLookup (path : List UInt8) : TreeProgram (Option Nat) := do
  let path := cString path
  match ← vfsGetRoot with
  | none => pure none
  | some root =>
      if path = [slash] then pure (some root)
      else
        let path := if path.head? = some slash then path.tail else path
        lookupFrom path.length root path

/-- `answer` is what `procfs_dynamic_read` puts together for a type of file. -/
def calls (answer : Nat → Nat → Nat → Int × List UInt8) : VfsCalls FileTree FileFault where
  root := vfsGetRoot
  lookup := vfsLookup
  finddir := vfsFinddir
  isDirectory node := do
    let vfs ← nodeAt node
    pure vfs.isDirectory
  create := vfsCreate
  read node offset size := vfsRead answer node offset size true
  write node offset buffer := vfsWrite node offset (some buffer)
  append node buffer := vfsAppend node (some buffer)
  truncate := vfsTruncate
  length node := do
    let vfs ← nodeAt node
    pure vfs.length
  openFile node _ := vfsOpen node

end FileTree

theorem onFiles_ok {x : Program Files Fault α} {a : α} {s t : SyscallState Files} :
    onFiles x s = .ok (a, t) ↔
      ∃ files, x s.files = .ok (a, files) ∧ t = { s with files } := by
  unfold onFiles
  cases x s.files with
  | error fault =>
      constructor
      · intro ok
        cases ok
      · rintro ⟨_, ok, _⟩
        cases ok
  | ok result =>
      obtain ⟨b, files⟩ := result
      constructor
      · intro ok
        cases ok
        exact ⟨files, rfl, rfl⟩
      · rintro ⟨_, ok, rfl⟩
        cases ok
        rfl

theorem onProcesses_ok {f : Processes → α × Processes} {a : α} {s t : SyscallState Files} :
    (onProcesses f : SyscallProgram Files Fault α) s = .ok (a, t) ↔
      (f s.ipc.processes).1 = a ∧
        t = { s with ipc := s.ipc.withProcesses (f s.ipc.processes).2 } := by
  rw [onProcesses, modifyGet_ok]
  exact and_congr Iff.rfl eq_comm

theorem recordEffect_ok {effect : FileEffect} {s t : SyscallState Files} :
    (recordEffect effect : SyscallProgram Files Fault Unit) s = .ok ((), t) ↔
      t = { s with effects := effect :: s.effects } := by
  rw [recordEffect, modifyGet_ok]
  exact ⟨fun ran => ran.2.symm, fun same => ⟨rfl, same.symm⟩⟩

end ZurichOS
