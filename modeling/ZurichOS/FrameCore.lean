import ZurichOS.ByteBuffer
import ZurichOS.ProcessCore
import ZurichOS.UserMemoryCore

/-!
The other places where user pages get their frames: the page faults of
`kernel/mm/mmap.c`, and the programs of `kernel/elf/elf_loader.c` that `process_exec`
loads and `sys_exit` frees.  There is one page directory, the one the kernel boots with.
-/

namespace ZurichOS

open Words ByteBuffer

abbrev userStackTop : Nat := 0xBFFFF000
abbrev userStackBottom : Nat := 0xBF800000
abbrev userStackSize : Nat := 0x00010000
abbrev kernelVma : Nat := 0xC0000000
abbrev ptLoad : Nat := 1

/-! Page faults. -/

/-- `memcpy` of a whole page, through the page tables. -/
def copyPage (m : Mm) (dest src : Nat) : Mm :=
  { m with
    phys := fun f i =>
      if f = m.mmuFrame dest ∧ i < 1024 then m.phys (m.mmuFrame src) i else m.phys f i }

def cowHandleFault (s : UserMemory) (faultAddr : Nat) : Int × UserMemory :=
  let pageAddr := faultAddr &&& 0xFFFFF000
  match vmaFind s faultAddr with
  | none => (-1, s)
  | some (pid, index) =>
      let vma := s.processVmas pid index
      if !vma.cow then (-1, s)
      else if vma.prot &&& protWrite = 0 then (-1, s)
      else if vmmGetPhysical s.mm pageAddr = 0 then (-1, s)
      else
        let allocated := pmmAllocFrame s.mm.pmm
        let m := { s.mm with pmm := allocated.2 }
        if allocated.1 = 0 then (-12, { s with mm := m })
        else
          let m := vmmMapPage m 0xFFFFE000 allocated.1 pageKernel
          let m := vmmUnmapPage (copyPage m 0xFFFFE000 pageAddr) 0xFFFFE000
          let m := vmmUnmapPage m pageAddr
          (0, { s with
            mm := vmmMapPage m pageAddr allocated.1 (pageUser ||| pagePresent ||| pageWrite) })

def demandPageAlloc (s : UserMemory) (virt : Nat) (vma : Vma) : Int × UserMemory :=
  let pageAddr := virt &&& 0xFFFFF000
  if vmmIsMapped s.mm pageAddr then (-1, s)
  else
    let allocated := pmmAllocFrame s.mm.pmm
    let m := { s.mm with pmm := allocated.2 }
    if allocated.1 = 0 then (-12, { s with mm := m })
    else
      let flags := pageUser ||| pagePresent
      let flags := if vma.prot &&& protWrite ≠ 0 then flags ||| pageWrite else flags
      let m := vmmMapPage m pageAddr allocated.1 flags
      (0, { s with mm := if vma.flags &&& mapAnonymous ≠ 0 then memsetPage m pageAddr else m })

def stackGrow (s : UserMemory) (faultAddr : Nat) : Int × UserMemory :=
  let pageAddr := faultAddr &&& 0xFFFFF000
  if vmmIsMapped s.mm pageAddr then (-1, s)
  else
    let allocated := pmmAllocFrame s.mm.pmm
    let m := { s.mm with pmm := allocated.2 }
    if allocated.1 = 0 then (-12, { s with mm := m })
    else
      let m := vmmMapPage m pageAddr allocated.1 (pageUser ||| pagePresent ||| pageWrite)
      (0, { s with mm := memsetPage m pageAddr })

/-- The second attempt of `handle_page_fault`, on a lazy area. -/
def demandFault (s : UserMemory) (faultAddr : Nat) : Int × UserMemory :=
  match vmaFind s faultAddr with
  | none => (-1, s)
  | some (pid, index) =>
      if (s.processVmas pid index).lazy then
        demandPageAlloc s faultAddr (s.processVmas pid index)
      else (-1, s)

def handlePageFault (s : UserMemory) (faultAddr errorCode : Nat) : Int × UserMemory :=
  let cow :=
    if errorCode &&& 0x1 ≠ 0 ∧ errorCode &&& 0x2 ≠ 0 then cowHandleFault s faultAddr else (-1, s)
  if cow.1 = 0 then cow
  else
    let demand := demandFault cow.2 faultAddr
    if demand.1 = 0 then demand
    else if userStackBottom ≤ faultAddr ∧ faultAddr < userStackTop then
      let grown := stackGrow demand.2 faultAddr
      if grown.1 = 0 then grown else (-1, grown.2)
    else (-1, demand.2)

/-! Bytes written through the page tables; an unmapped byte faults in the kernel, which
stops there. -/

def replaceByte (word index value : Nat) : Nat :=
  word % 256 ^ index + value * 256 ^ index + word / 256 ^ (index + 1) * 256 ^ (index + 1)

def Mm.setByte (m : Mm) (virt value : Nat) : Mm :=
  if vmmIsMapped m virt then
    { m with
      phys := fun f i =>
        if f = m.mmuFrame virt ∧ i = virt % 4096 / 4 then
          replaceByte (m.phys f i) (virt % 4) value
        else m.phys f i }
  else m

def Mm.setBytes (m : Mm) (start count : Nat) (value : Nat → Nat) : Mm :=
  (List.range count).foldl (fun m i => m.setByte (u32 (start + i)) (value i)) m

/-! Loading a program. -/

structure ElfPhdr where
  type : Nat
  offset : Nat
  vaddr : Nat
  filesz : Nat
  memsz : Nat

def elfPhnum (data : Buffer) : Nat := word16 data 44

def elfPhdr (data : Buffer) (index : Nat) : ElfPhdr :=
  let phdr := word32 data 28 + 32 * index
  { type := word32 data phdr, offset := word32 data (phdr + 4), vaddr := word32 data (phdr + 8)
    filesz := word32 data (phdr + 16), memsz := word32 data (phdr + 20) }

/-- A little-endian 32-bit executable for the i386. -/
def elfHeaderValid (data : Buffer) (size : Nat) : Bool :=
  decide (52 ≤ size) && data 0 == 0x7F && data 1 == 0x45 && data 2 == 0x4C && data 3 == 0x46 &&
    data 4 == 1 && data 5 == 1 && word16 data 18 == 3 && word16 data 16 == 2

def elfMapPages : List Nat → Mm → Bool × Mm
  | [], m => (true, m)
  | page :: rest, m =>
      let allocated := pmmAllocFrame m.pmm
      let m := { m with pmm := allocated.2 }
      if allocated.1 = 0 then (false, m)
      else
        elfMapPages rest (vmmMapPage m page allocated.1 (pagePresent ||| pageWrite ||| pageUser))

def ElfPhdr.pages (phdr : ElfPhdr) : List Nat :=
  pageLoop (phdr.vaddr &&& 0xFFFFF000) (u32 (phdr.vaddr + phdr.memsz + 0xFFF) &&& 0xFFFFF000)

def elfCopySegment (data : Buffer) (phdr : ElfPhdr) (m : Mm) : Mm :=
  let m := m.setBytes phdr.vaddr phdr.filesz fun i => (data (phdr.offset + i)).toNat
  if phdr.filesz < phdr.memsz then
    m.setBytes (u32 (phdr.vaddr + phdr.filesz)) (phdr.memsz - phdr.filesz) fun _ => 0
  else m

def elfLoadSegments (data : Buffer) : List Nat → Mm → Bool × Mm
  | [], m => (true, m)
  | index :: rest, m =>
      let phdr := elfPhdr data index
      if phdr.type = ptLoad then
        let mapped := elfMapPages phdr.pages m
        if mapped.1 then elfLoadSegments data rest (elfCopySegment data phdr mapped.2) else mapped
      else elfLoadSegments data rest m

def elfStackPages : List Nat := pageLoop (userStackTop - userStackSize) userStackTop

/-- `elf_load_from_memory`, `proc` being what `kmalloc` returns for the process. -/
def elfLoadFromMemory (m : Mm) (data : Buffer) (size proc : Nat) : Option Nat × Mm :=
  if !elfHeaderValid data size then (none, m)
  else if proc = 0 then (none, m)
  else
    let loaded := elfLoadSegments data (List.range (elfPhnum data)) m
    if loaded.1 then
      let stack := elfMapPages elfStackPages loaded.2
      (if stack.1 then some proc else none, stack.2)
    else (none, loaded.2)

/-! Freeing a program. -/

def Mm.readWord (m : Mm) (virt : Nat) : Nat := m.phys (m.mmuFrame virt) (virt % 4096 / 4)

def Mm.freeEntry (m : Mm) (entry : Nat) : Mm :=
  if entry &&& pagePresent ≠ 0 then { m with pmm := pmmFreeFrame m.pmm (entry &&& 0xFFFFF000) }
  else m

def elfFreeTable (pageDir : Nat) (m : Mm) (index : Nat) : Mm :=
  let entry := m.readWord (u32 (pageDir + 4 * index))
  if entry &&& pagePresent ≠ 0 then
    let table := u32 ((entry &&& 0xFFFFF000) + kernelVma)
    let m := (List.range 1024).foldl
      (fun m slot => m.freeEntry (m.readWord (u32 (table + 4 * slot)))) m
    m.freeEntry entry
  else m

def elfFreeProcess (m : Mm) (pageDir : Nat) : Mm :=
  if pageDir = 0 then m
  else
    let m := (List.range 768).foldl (elfFreeTable pageDir) m
    { m with pmm := pmmFreeFrame m.pmm (sub32 pageDir kernelVma) }

/-! The system. -/

/-- The memory, the process table, and `page_dir` of the program at each address. -/
structure UserSystem where
  memory : UserMemory
  processes : Processes
  pageDir : Nat → Nat

def UserSystem.setMm (s : UserSystem) (mm : Mm) : UserSystem :=
  { s with memory := { s.memory with mm } }

/-- The memory as the current process sees it. -/
def UserSystem.current (s : UserSystem) : UserMemory :=
  { s.memory with
    pid := (processCurrent s.processes).map fun i => (s.processes.table i).pid }

/-- What `vfs_read` yields of a file. -/
structure ElfFile where
  data : Buffer
  size : Nat

def elfLoadFromFile (s : UserSystem) (file : Option ElfFile) (proc : Nat) :
    Option Nat × UserSystem :=
  match file with
  | none => (none, s)
  | some file =>
      let loaded := elfLoadFromMemory s.memory.mm file.data file.size proc
      let s := s.setMm loaded.2
      match loaded.1 with
      | none => (none, s)
      | some proc => (some proc, { s with pageDir := Function.update s.pageDir proc 0 })

def elfExecute (s : UserSystem) (proc kernelStack : Nat) : UserSystem :=
  { s with processes := elfRegister s.processes "user".toList kernelStack proc }

/-- `elf_free_process` of the program a process runs, if any. -/
def freeProgram (s : UserSystem) (proc : Option Nat) : UserSystem :=
  match proc with
  | none => s
  | some proc => s.setMm (elfFreeProcess s.memory.mm (s.pageDir proc))

def systemExec (s : UserSystem) (path : List Char) (file : Option ElfFile)
    (proc kernelStack : Nat) : UserSystem :=
  match processCurrent s.processes with
  | none => s
  | some i =>
      match elfLoadFromFile s file proc with
      | (none, s) => s
      | (some proc, s) =>
          let s := freeProgram s (s.processes.table i).elfProc
          { s with
            processes :=
              (processExec s.processes path (some ⟨proc, "user".toList⟩) kernelStack).2 }

def systemExit (s : UserSystem) : UserSystem :=
  let freed :=
    match processCurrent s.processes with
    | none => s
    | some i =>
        if 1 < (s.processes.table i).pid then freeProgram s (s.processes.table i).elfProc else s
  { freed with processes := sysExit s.processes }

inductive UserCall where
  | mmap (addr length prot flags : Nat)
  | munmap (addr length : Nat)
  | pageFault (faultAddr errorCode : Nat)
  | load (file : Option ElfFile) (proc : Nat)
  | execute (proc kernelStack : Nat)
  | exec (path : List Char) (file : Option ElfFile) (proc kernelStack : Nat)
  | exit
  | processExit (status : Int)
  | kill (pid : Nat)

def userStep (s : UserSystem) : UserCall → UserSystem
  | .mmap addr length prot flags =>
      { s with memory := (sysMmap s.current addr length prot flags).2 }
  | .munmap addr length => { s with memory := (sysMunmap s.current addr length).2 }
  | .pageFault faultAddr errorCode =>
      { s with memory := (handlePageFault s.current faultAddr errorCode).2 }
  | .load file proc => (elfLoadFromFile s file proc).2
  | .execute proc kernelStack => elfExecute s proc kernelStack
  | .exec path file proc kernelStack => systemExec s path file proc kernelStack
  | .exit => systemExit s
  | .processExit status => { s with processes := ZurichOS.processExit s.processes status }
  | .kill pid => { s with processes := (processKill s.processes pid).2 }

/-- The system as it boots: the shell runs, and no program has been loaded. -/
def UserSystem.start (mm : Mm) : UserSystem :=
  { memory := .start mm (some 1), processes := processInit, pageDir := fun _ => 0 }

end ZurichOS
