import ZurichOS.VmmCore

/-!
The memory system calls of a user program: `kernel/mm/mmap.c` and the shared
memory of `kernel/ipc/ipc.c`, over one address space.  `memset` writes through the
page tables; it writes nothing where a page is unmapped, the processor faulting
there and the kernel stopping.
-/

namespace ZurichOS

open Words

structure Vma where
  start : Nat
  stop : Nat
  prot : Nat
  flags : Nat
  file : Nat
  fileOffset : Nat
  inUse : Bool
  cow : Bool
  lazy : Bool

structure ShmRegion where
  key : Nat
  size : Nat
  physAddr : Nat
  refCount : Nat
  inUse : Bool

abbrev maxVmasPerProc : Nat := 32
abbrev maxShmRegions : Nat := 16
abbrev shmMaxSize : Nat := 1024 * 1024
abbrev protWrite : Nat := 0x2
abbrev mapShared : Nat := 0x01
abbrev mapFixed : Nat := 0x10
abbrev mapAnonymous : Nat := 0x20
abbrev mapFailed : Nat := 0xFFFFFFFF
abbrev userMmapStart : Nat := 0x40000000
abbrev userMmapEnd : Nat := 0x80000000

/-- The machine, the process on it and the tables of the two subsystems. -/
structure UserMemory where
  mm : Mm
  pid : Option Nat
  processVmas : Nat → Nat → Vma
  nextMmapAddr : Nat
  shmRegions : Nat → ShmRegion

/-! Virtual memory areas. -/

def getVmaTable (s : UserMemory) : Option Nat :=
  s.pid.filter fun pid => decide (pid < 64)

def UserMemory.setVma (s : UserMemory) (pid index : Nat) (vma : Vma) : UserMemory :=
  { s with
    processVmas := fun p i => if p = pid ∧ i = index then vma else s.processVmas p i }

def vmaFind (s : UserMemory) (addr : Nat) : Option (Nat × Nat) := do
  let pid ← getVmaTable s
  let index ← (List.range maxVmasPerProc).find? fun i =>
    let vma := s.processVmas pid i
    vma.inUse && decide (vma.start ≤ addr) && decide (addr < vma.stop)
  return (pid, index)

def vmaCreate (s : UserMemory) (start stop prot flags : Nat) :
    Option (Nat × Nat × UserMemory) := do
  let pid ← getVmaTable s
  let index ← (List.range maxVmasPerProc).find? fun i => !(s.processVmas pid i).inUse
  return (pid, index, s.setVma pid index
    { start, stop, prot, flags, file := 0, fileOffset := 0, inUse := true, cow := false
      lazy := decide (flags &&& mapAnonymous ≠ 0) })

def vmaDestroy (s : UserMemory) (pid index : Nat) : UserMemory :=
  s.setVma pid index { s.processVmas pid index with inUse := false }

/-! `memset(page, 0, 0x1000)`: little-endian words, a word cut by the range in part. -/

def Mm.clearFrom (m : Mm) (frame offset : Nat) : Mm :=
  { m with
    phys := fun f i =>
      if f = frame ∧ i < 1024 then m.phys f i % 2 ^ (8 * min 4 (offset - 4 * i))
      else m.phys f i }

def Mm.clearBelow (m : Mm) (frame offset : Nat) : Mm :=
  { m with
    phys := fun f i =>
      if f = frame ∧ i < 1024 then
        m.phys f i / 2 ^ (8 * min 4 (offset - 4 * i)) * 2 ^ (8 * min 4 (offset - 4 * i))
      else m.phys f i }

def memsetPage (m : Mm) (page : Nat) : Mm :=
  let offset := page &&& 0xFFF
  let m := if vmmIsMapped m page then m.clearFrom (m.mmuFrame page) offset else m
  -- An unaligned range runs on into the next page.
  if offset ≠ 0 ∧ vmmIsMapped m (page + 0x1000) then
    m.clearBelow (m.mmuFrame (page + 0x1000)) offset
  else m

/-! `mmap`, `munmap`, `mprotect`. -/

def mmapRollback (m : Mm) (p : Nat) : Mm :=
  let phys := vmmGetPhysical m p
  let m := vmmUnmapPage m p
  { m with pmm := pmmFreeFrame m.pmm phys }

/-- The page loop of `sys_mmap`, from `vaddr`. -/
def mmapPages (vaddr : Nat) : List Nat → Mm → Bool × Mm
  | [], m => (true, m)
  | page :: rest, m =>
      let allocated := pmmAllocFrame m.pmm
      let m := { m with pmm := allocated.2 }
      if allocated.1 = 0 then (false, (pageLoop vaddr page).foldl mmapRollback m)
      else
        let m := vmmMapPage m page allocated.1 (pageUser ||| pagePresent ||| pageWrite)
        mmapPages vaddr rest (memsetPage m page)

def roundLength (length : Nat) : Nat := u32 (length + 0xFFF) &&& 0xFFFFF000

def sysMmap (s : UserMemory) (addr length prot flags : Nat) : Nat × UserMemory :=
  if length = 0 then (mapFailed, s)
  else
    let length := roundLength length
    let fixed := flags &&& mapFixed ≠ 0
    let vaddr := if fixed then addr else s.nextMmapAddr
    if (fixed ∧ vaddr < userMmapStart) ∨ userMmapEnd < u32 (vaddr + length) then (mapFailed, s)
    else
      let s := if fixed then s else { s with nextMmapAddr := u32 (s.nextMmapAddr + length) }
      match vmaCreate s vaddr (u32 (vaddr + length)) prot flags with
      | none => (mapFailed, s)
      | some (pid, index, s) =>
          if flags &&& mapAnonymous = 0 then (mapFailed, vmaDestroy s pid index)
          else
            let mapped := mmapPages vaddr (pageLoop vaddr (u32 (vaddr + length))) s.mm
            let s := { s with mm := mapped.2 }
            if mapped.1 then (vaddr, s) else (mapFailed, vmaDestroy s pid index)

def munmapPage (shared : Bool) (m : Mm) (page : Nat) : Mm :=
  if vmmIsMapped m page then
    let phys := vmmGetPhysical m page
    let m := vmmUnmapPage m page
    if shared then m else { m with pmm := pmmFreeFrame m.pmm phys }
  else m

def sysMunmap (s : UserMemory) (vaddr length : Nat) : Int × UserMemory :=
  if vaddr &&& 0xFFF ≠ 0 then (-22, s)
  else if length = 0 then (-22, s)
  else
    let length := roundLength length
    match vmaFind s vaddr with
    | none => (-22, s)
    | some (pid, index) =>
        let vma := s.processVmas pid index
        let stop := u32 (vaddr + length)
        let shared := decide (vma.flags &&& mapShared ≠ 0)
        let s := { s with mm := (pageLoop vaddr stop).foldl (munmapPage shared) s.mm }
        if vaddr = vma.start ∧ stop = vma.stop then (0, vmaDestroy s pid index)
        else if vaddr = vma.start then (0, s.setVma pid index { vma with start := stop })
        else if stop = vma.stop then (0, s.setVma pid index { vma with stop := vaddr })
        else (0, s)

def mprotectPage (flags : Nat) (m : Mm) (page : Nat) : Mm :=
  if vmmIsMapped m page then
    vmmMapPage (vmmUnmapPage m page) page (vmmGetPhysical m page) flags
  else m

def sysMprotect (s : UserMemory) (vaddr length prot : Nat) : Int × UserMemory :=
  if vaddr &&& 0xFFF ≠ 0 then (-22, s)
  else if length = 0 then (-22, s)
  else
    let length := roundLength length
    match vmaFind s vaddr with
    | none => (-22, s)
    | some (pid, index) =>
        let s := s.setVma pid index { s.processVmas pid index with prot }
        let flags := pageUser ||| pagePresent
        let flags := if prot &&& protWrite ≠ 0 then flags ||| pageWrite else flags
        (0, { s with
          mm := (pageLoop vaddr (u32 (vaddr + length))).foldl (mprotectPage flags) s.mm })

/-! Shared memory. -/

def UserMemory.setRegion (s : UserMemory) (index : Nat) (region : ShmRegion) : UserMemory :=
  { s with shmRegions := fun i => if i = index then region else s.shmRegions i }

def shmPages (size : Nat) : Nat := u32 (size + 0xFFF) / 0x1000

def shmFrame (phys index : Nat) : Nat := u32 (phys + index * 0x1000)

/-- The loop of `shm_create` over the pages `index ..` of a region at `phys`. -/
def shmTakeFrames (phys index : Nat) : Nat → Pmm → Bool × Pmm
  | 0, pmm => (true, pmm)
  | count + 1, pmm =>
      let allocated := pmmAllocFrame pmm
      if allocated.1 = 0 then
        (false, ((List.range index).map (shmFrame phys)).foldl pmmFreeFrame allocated.2)
      else shmTakeFrames phys (index + 1) count allocated.2

def shmCreate (s : UserMemory) (key size : Nat) : Int × UserMemory :=
  if size = 0 ∨ shmMaxSize < size then (-22, s)
  else
    let regions := List.range maxShmRegions
    match regions.find? fun i => (s.shmRegions i).inUse && (s.shmRegions i).key == key with
    | some shmid => (shmid, s)
    | none =>
        match regions.find? fun i => !(s.shmRegions i).inUse with
        | none => (-28, s)
        | some shmid =>
            let first := pmmAllocFrame s.mm.pmm
            if first.1 = 0 then (-12, { s with mm := { s.mm with pmm := first.2 } })
            else
              let taken := shmTakeFrames first.1 1 (shmPages size - 1) first.2
              let s := { s with mm := { s.mm with pmm := taken.2 } }
              if taken.1 then
                (shmid, s.setRegion shmid
                  { key, size, physAddr := first.1, refCount := 0, inUse := true })
              else (-12, s)

def shmAddresses (vaddr size : Nat) : List Nat :=
  (List.range (shmPages size)).map fun i => u32 (vaddr + i * 0x1000)

def shmAttach (s : UserMemory) (shmid vaddr : Nat) : Nat × UserMemory :=
  -- A negative `shmid` is a large word.
  if maxShmRegions ≤ shmid then (mapFailed, s)
  else
    let region := s.shmRegions shmid
    if region.inUse then
      let mm := (List.range (shmPages region.size)).foldl (fun m i =>
        vmmMapPage m (u32 (vaddr + i * 0x1000)) (shmFrame region.physAddr i)
          (pagePresent ||| pageWrite ||| pageUser)) s.mm
      (vaddr, { s with mm }.setRegion shmid { region with refCount := u32 (region.refCount + 1) })
    else (mapFailed, s)

def shmFirst (s : UserMemory) : Option Nat :=
  (List.range maxShmRegions).find? fun i => (s.shmRegions i).inUse

def shmDetach (s : UserMemory) (vaddr : Nat) : Int × UserMemory :=
  match shmFirst s with
  | none => (-22, s)
  | some shmid =>
      let region := s.shmRegions shmid
      let mm := (shmAddresses vaddr region.size).foldl vmmUnmapPage s.mm
      let s := { s with mm }
      if 0 < region.refCount then
        (0, s.setRegion shmid { region with refCount := region.refCount - 1 })
      else (0, s)

/-! The calls a user program makes, and the process they are made from. -/

inductive MemoryCall where
  | mmap (addr length prot flags : Nat)
  | munmap (addr length : Nat)
  | mprotect (addr length prot : Nat)
  | shmget (key size : Nat)
  | shmat (shmid vaddr : Nat)
  | shmdt (addr : Nat)
  | setCurrent (pid : Option Nat)

def UserMemory.call (s : UserMemory) : MemoryCall → UserMemory
  | .mmap addr length prot flags => (sysMmap s addr length prot flags).2
  | .munmap addr length => (sysMunmap s addr length).2
  | .mprotect addr length prot => (sysMprotect s addr length prot).2
  | .shmget key size => (shmCreate s key size).2
  | .shmat shmid vaddr => (shmAttach s shmid vaddr).2
  | .shmdt addr => (shmDetach s addr).2
  | .setCurrent pid => { s with pid }

def UserMemory.start (mm : Mm) (pid : Option Nat) : UserMemory :=
  { mm, pid, nextMmapAddr := userMmapStart
    processVmas := fun _ _ => ⟨0, 0, 0, 0, 0, 0, false, false, false⟩
    shmRegions := fun _ => ⟨0, 0, 0, 0, false⟩ }

end ZurichOS
