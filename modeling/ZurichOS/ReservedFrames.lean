import ZurichOS.ReservedMemory
import ZurichOS.VmaRange

set_option linter.all false

/-!
The frames of low memory, of the kernel and of the bitmap over runs of everything that asks
for frames or gives them back.
-/

namespace ZurichOS

open Words ByteBuffer Transitions Mm

/-! Who asks for frames and gives them back. -/

abbrev e1000RxBufferSize : Nat := 2048

/-- `e1000_send`, of which the frame of the packet's copy is told. -/
def e1000Send (m : Mm) (data : Buffer) (length : Nat) : Mm :=
  if e1000RxBufferSize < length then m
  else
    let allocated := pmmAllocFrame m.pmm
    let buf := u32 (allocated.1 + kernelVma)
    let m := vmmMapPage { m with pmm := allocated.2 } (buf &&& 0xFFFFF000) allocated.1
      (pagePresent ||| pageWrite)
    let m := m.setBytes buf length fun i => (data i).toNat
    let m := vmmUnmapPage m (buf &&& 0xFFFFF000)
    { m with pmm := pmmFreeFrame m.pmm allocated.1 }

/-- The memory, and the frames that drivers and the shell hold. -/
structure FrameSystem where
  memory : UserMemory
  held : List Nat

def FrameSystem.setMm (s : FrameSystem) (mm : Mm) : FrameSystem :=
  { s with memory := { s.memory with mm } }

inductive FrameUse where
  | call (call : MemoryCall)
  | shmDestroy (shmid : Nat)
  | pageFault (faultAddr errorCode : Nat)
  | load (data : Buffer) (size proc : Nat)
  | heapGrow (start stop : Nat)
  | send (data : Buffer) (length : Nat)
  | alloc
  | free (addr : Nat)

def frameStep (s : FrameSystem) : FrameUse → FrameSystem
  | .call call => { s with memory := s.memory.call call }
  | .shmDestroy shmid => { s with memory := (ZurichOS.shmDestroy s.memory shmid).2 }
  | .pageFault faultAddr errorCode =>
      { s with memory := (handlePageFault s.memory faultAddr errorCode).2 }
  | .load data size proc => s.setMm (elfLoadFromMemory s.memory.mm data size proc).2
  | .heapGrow start stop => s.setMm (heapMapPages (pageLoop start stop) s.memory.mm).2
  | .send data length => s.setMm (e1000Send s.memory.mm data length)
  | .alloc =>
      let allocated := pmmAllocFrame s.memory.mm.pmm
      { s.setMm { s.memory.mm with pmm := allocated.2 } with
        held := if allocated.1 = 0 then s.held else allocated.1 :: s.held }
  | .free addr =>
      -- Only the frames that were handed out come back.
      if addr ∈ s.held then
        { s.setMm { s.memory.mm with pmm := pmmFreeFrame s.memory.mm.pmm addr } with
          held := s.held.erase addr }
      else s

/-! What a call leaves as it is. -/

/-- No area is copied on write, and each ends in the user half. -/
def AreasPlain (s : UserMemory) : Prop :=
  ∀ pid index, (s.processVmas pid index).cow = false ∧ (s.processVmas pid index).stop ≤ userMmapEnd

def RegionsPlain (reserved : Nat) (s : UserMemory) : Prop :=
  ∀ shmid, (s.shmRegions shmid).inUse = true → ∀ i < shmPages (s.shmRegions shmid).size,
    reserved ≤ shmFrame (s.shmRegions shmid).physAddr i / 4096

structure MemoryReserved (reserved : Nat) (s : UserMemory) : Prop where
  frames : ReservedKept reserved s.mm
  areas : AreasPlain s
  regions : RegionsPlain reserved s
  aligned : s.nextMmapAddr % 4096 = 0

variable {reserved : Nat} {s after : UserMemory}

theorem AreasPlain.setVma (areas : AreasPlain s) (pid index : Nat) {vma : Vma}
    (plain : vma.cow = false ∧ vma.stop ≤ userMmapEnd) : AreasPlain (s.setVma pid index vma) := by
  intro owner other
  simp only [UserMemory.setVma]
  split
  · exact plain
  · exact areas owner other

theorem MemoryReserved.setMm (kept : MemoryReserved reserved s) {mm : Mm}
    (frames : ReservedKept reserved mm) : MemoryReserved reserved { s with mm } :=
  ⟨frames, kept.areas, kept.regions, kept.aligned⟩

theorem MemoryReserved.setVma (kept : MemoryReserved reserved s) (pid index : Nat) (vma : Vma)
    (areas : AreasPlain (s.setVma pid index vma)) :
    MemoryReserved reserved (s.setVma pid index vma) :=
  ⟨kept.frames, areas, kept.regions, kept.aligned⟩

/-- `mmap` finds a table for each page but the last, or a second frame for one, while there
are frames; and an unaligned one runs on into no page table. -/
def MmapLinks (s : UserMemory) (addr length prot flags : Nat) : Prop :=
  StaysInUserHalf s (.mmap addr length prot flags) ∧
    (flags &&& mapAnonymous ≠ 0 → mmapAccepted s addr length flags →
      (∃ pid, getVmaTable s = some pid ∧
        ∃ index < maxVmasPerProc, (s.processVmas pid index).inUse = false) →
      tablesFit s.mm.pmm.freeFrames s.mm.room.linked (pageLoop (mmapAddress s addr flags)
        (u32 (mmapAddress s addr flags + roundLength length))) = true)

theorem bump_kept (s : UserMemory) (length flags : Nat) :
    (s.bump length flags).shmRegions = s.shmRegions ∧
      (s.nextMmapAddr % 4096 = 0 → (s.bump length flags).nextMmapAddr % 4096 = 0) := by
  have round := roundLength_aligned length
  unfold UserMemory.bump
  split
  · exact ⟨rfl, fun whole => whole⟩
  · refine ⟨rfl, fun whole => ?_⟩
    show u32 (s.nextMmapAddr + roundLength length) % 4096 = 0
    unfold u32
    omega

theorem MemoryReserved.mmap (kept : MemoryReserved reserved s) (positive : 0 < reserved)
    {addr length prot flags : Nat} (links : MmapLinks s addr length prot flags) :
    MemoryReserved reserved (sysMmap s addr length prot flags).2 := by
  obtain ⟨mm, vmas, pid⟩ := bump_same s length flags
  obtain ⟨sameRegions, whole⟩ := bump_kept s length flags
  have next := whole kept.aligned
  have areas : AreasPlain (s.bump length flags) := fun owner other => vmas ▸ kept.areas owner other
  have regions : RegionsPlain reserved (s.bump length flags) := fun shmid =>
    sameRegions ▸ kept.regions shmid
  rcases sysMmap_cases s addr length prot flags with ⟨_, after⟩ | ⟨accepted, ⟨_, after⟩ | made⟩
  · rw [after]
    exact kept
  · rw [after]
    exact ⟨mm ▸ kept.frames, areas, regions, next⟩
  obtain ⟨owner, index, made, created, mapped⟩ := made
  obtain ⟨table, inside, free, vma, ⟨_, _, stop, cow⟩, rfl⟩ := vmaCreate_eq_some created
  have below : u32 (mmapAddress s addr flags + roundLength length) ≤ userMmapEnd :=
    Nat.le_of_not_lt fun beyond => accepted.2 (.inr beyond)
  have stays := areas.setVma owner index ⟨cow, stop ▸ below⟩
  have again := stays owner index
  have created : MemoryReserved reserved ((s.bump length flags).setVma owner index vma) :=
    ⟨mm ▸ kept.frames, stays, regions, next⟩
  rcases mapped with ⟨_, after⟩ | ⟨anonymous, after⟩
  · rw [after]
    exact created.setVma owner index _ (stays.setVma _ _ again)
  have slot : getVmaTable s = some owner := by
    rw [← table, getVmaTable, getVmaTable, pid]
  rw [vmas] at free
  have looped := mmapPages_reserved kept.frames positive below (mmap_spill kept.aligned links.1)
    (links.2 anonymous accepted ⟨owner, slot, index, inside, free⟩)
  have placed : ((s.bump length flags).setVma owner index vma).mm = s.mm := mm
  rw [after, UserMemory.mapArea, placed]
  split
  · exact created.setMm looped
  · have undone := created.setMm looped
    exact undone.setVma owner index _ (undone.areas.setVma _ _ again)

/-- The pages of a private area that `munmap` takes away are below the kernel, and map no
page table. -/
def MunmapPlain (s : UserMemory) (addr length : Nat) : Prop :=
  ∀ pid index, vmaFind s addr = some (pid, index) →
    ∀ page ∈ pageLoop addr (u32 (addr + roundLength length)),
      Unmappable (decide ((s.processVmas pid index).flags &&& mapShared ≠ 0)) s.mm page

theorem whole_stop {addr : Nat} (aligned : addr &&& 0xFFF = 0) (length : Nat) :
    u32 (addr + roundLength length) % 4096 = 0 := by
  have round := roundLength_aligned length
  rw [and_offsetMask] at aligned
  unfold u32
  omega

theorem MemoryReserved.munmap (kept : MemoryReserved reserved s) (positive : 0 < reserved)
    {addr length : Nat} (plain : MunmapPlain s addr length) :
    MemoryReserved reserved (sysMunmap s addr length).2 := by
  unfold sysMunmap
  split
  · exact kept
  rename_i aligned
  split
  · exact kept
  dsimp only
  split
  · exact kept
  rename_i pid index found
  have looped := kept.frames.munmapPages positive
    (pageLoop_below (whole_stop (not_not.mp aligned) length) (u32_lt _)) (plain pid index found)
  have area := kept.areas pid index
  have inside := (vmaFind_some found).2.2.2.2
  have unmapped := kept.setMm looped
  split
  · exact unmapped.setVma pid index _ (unmapped.areas.setVma pid index area)
  split
  · exact unmapped.setVma pid index _ (unmapped.areas.setVma pid index area)
  split
  · exact unmapped.setVma pid index _
      (unmapped.areas.setVma pid index ⟨area.1, Nat.le_trans (Nat.le_of_lt inside) area.2⟩)
  · exact unmapped

theorem MemoryReserved.mprotect (kept : MemoryReserved reserved s) (addr length prot : Nat) :
    MemoryReserved reserved (sysMprotect s addr length prot).2 := by
  unfold sysMprotect
  split
  · exact kept
  rename_i aligned
  split
  · exact kept
  dsimp only
  split
  · exact kept
  rename_i pid index found
  exact (kept.setVma pid index { s.processVmas pid index with prot }
    (kept.areas.setVma pid index (kept.areas pid index))).setMm
    (kept.frames.mprotectPages (mprotectFlags_user prot)
      (pageLoop_below (whole_stop (not_not.mp aligned) length) (u32_lt _)))

/-! Shared memory. -/

theorem RegionsPlain.setRegion (regions : RegionsPlain reserved s) {shmid : Nat} {region : ShmRegion}
    (plain : region.inUse = true → ∀ i < shmPages region.size,
      reserved ≤ shmFrame region.physAddr i / 4096) :
    RegionsPlain reserved (s.setRegion shmid region) := by
  intro other used
  simp only [UserMemory.setRegion] at used ⊢
  split at used
  · rename_i own
    rw [if_pos own]
    exact plain used
  · rename_i apart
    rw [if_neg apart]
    exact regions other used

theorem MemoryReserved.setRegion (kept : MemoryReserved reserved s) {shmid : Nat}
    {region : ShmRegion} (plain : region.inUse = true → ∀ i < shmPages region.size,
      reserved ≤ shmFrame region.physAddr i / 4096) :
    MemoryReserved reserved (s.setRegion shmid region) :=
  ⟨kept.frames, kept.areas, kept.regions.setRegion plain, kept.aligned⟩

theorem MemoryReserved.shmget (kept : MemoryReserved reserved s) (positive : 0 < reserved)
    {key size : Nat} (stays : StaysInUserHalf s (.shmget key size)) :
    MemoryReserved reserved (shmCreate s key size).2 := by
  unfold shmCreate
  split
  · exact kept
  dsimp only
  split
  · exact kept
  split
  · exact kept
  split
  · exact kept.setMm kept.frames.allocFrame.kept
  rename_i shmid _ success
  have memory := kept.frames.guarded.memory
  have taken := kept.frames.allocFrame
  have takes := kept.frames.accounted.takes success
  have beyond := kept.frames.beyond success
  have row : ∀ frame < (pmmAllocFrame s.mm.pmm).1 / 4096 + 1,
      (pmmAllocFrame s.mm.pmm).2.bitmapTest frame = true := by
    intro frame below
    by_cases own : frame = (pmmAllocFrame s.mm.pmm).1 / 4096
    · refine (Bool.not_eq_false _).mp fun free => ?_
      exact ((takes.free frame).mp free).2 own
    · exact allocFrame_keeps (kept.frames.accounted.allocFrame_lowest success (by omega))
  have address : (pmmAllocFrame s.mm.pmm).1 / 4096 * 4096 = (pmmAllocFrame s.mm.pmm).1 := by
    obtain ⟨frame, _, same, _⟩ := kept.frames.accounted.allocFrame_success success
    omega
  have bound := takes.bound
  have total := takes.total
  obtain ⟨batch, _, room⟩ := @ReservedKept.shmTakeFrames reserved _ taken.kept positive
    ((pmmAllocFrame s.mm.pmm).1 / 4096) 1 (shmPages size - 1) beyond row
    (by show _ ≤ (pmmAllocFrame s.mm.pmm).2.totalFrames; omega) (by rw [address]; exact stays)
  rw [address] at batch room
  have filled := kept.setMm batch
  split
  · rename_i all
    refine filled.setRegion fun _ i below => ?_
    have enough := room all
    have inside : shmPages size ≤ shmPages size - 1 + 1 := by omega
    dsimp only at below enough ⊢
    rw [← address, shmFrame_row (by omega)]
    omega
  · exact filled

theorem MemoryReserved.shmat (kept : MemoryReserved reserved s) {shmid vaddr : Nat}
    (outside : (s.shmRegions shmid).inUse = true →
      OutsideWindow vaddr (shmPages (s.shmRegions shmid).size)) :
    MemoryReserved reserved (shmAttach s shmid vaddr).2 := by
  unfold shmAttach
  split
  · exact kept
  dsimp only
  split
  · rename_i inUse
    have plain := kept.regions shmid inUse
    have mapped : ReservedKept reserved ((List.range (shmPages (s.shmRegions shmid).size)).foldl
        (fun m i => vmmMapPage m (u32 (vaddr + i * 0x1000))
          (shmFrame (s.shmRegions shmid).physAddr i) (pagePresent ||| pageWrite ||| pageUser))
        s.mm) := by
      refine List.foldlRecOn _ _ kept.frames fun m before i member => ?_
      have below := List.mem_range.mp member
      have frame : reserved ≤ frameOf (shmFrame (s.shmRegions shmid).physAddr i) := by
        rw [frameOf, and_pageMask (show shmFrame _ i < 4294967296 from u32_lt _)]
        have own := plain i below
        omega
      exact (before.mapPage (outside inUse i below) frame _).kept
    exact (kept.setMm mapped).setRegion fun _ => plain
  · exact kept

theorem MemoryReserved.shmdt (kept : MemoryReserved reserved s) {addr : Nat}
    (outside : ∀ shmid, shmFirst s = some shmid →
      OutsideWindow addr (shmPages (s.shmRegions shmid).size)) :
    MemoryReserved reserved (shmDetach s addr).2 := by
  unfold shmDetach
  split
  · exact kept
  rename_i shmid first
  have unmapped : ReservedKept reserved
      ((shmAddresses addr (s.shmRegions shmid).size).foldl vmmUnmapPage s.mm) := by
    refine List.foldlRecOn _ _ kept.frames fun m before page member => ?_
    obtain ⟨i, below, rfl⟩ := List.mem_map.mp member
    exact (before.unmapPage (outside shmid first i (List.mem_range.mp below))).kept
  dsimp only
  split
  · exact (kept.setMm unmapped).setRegion (kept.regions shmid)
  · exact kept.setMm unmapped

theorem MemoryReserved.shmDestroy (kept : MemoryReserved reserved s) (positive : 0 < reserved)
    {shmid : Nat} (fresh : (s.shmRegions shmid).inUse = true →
      ∀ i < shmPages (s.shmRegions shmid).size,
        s.mm.FreshTable (shmFrame (s.shmRegions shmid).physAddr i / 4096)) :
    MemoryReserved reserved (ZurichOS.shmDestroy s shmid).2 := by
  unfold ZurichOS.shmDestroy
  split
  · exact kept
  dsimp only
  split
  · exact kept
  rename_i used
  split
  · exact kept
  have inUse : (s.shmRegions shmid).inUse = true := by simpa using used
  refine (kept.setMm (kept.frames.freeFrames positive ?_ ?_)).setRegion ?_
  · rintro _ member
    obtain ⟨i, below, rfl⟩ := List.mem_map.mp member
    exact kept.regions shmid inUse i (List.mem_range.mp below)
  · rintro _ member
    obtain ⟨i, below, rfl⟩ := List.mem_map.mp member
    exact fresh inUse i (List.mem_range.mp below)
  · exact fun used => absurd used Bool.false_ne_true

/-! Page faults. -/

/-- What an attempt to map a page for a fault does: it may map the page, and else nothing. -/
structure FaultKept (reserved : Nat) (s : UserMemory) (attempt : Int × UserMemory) : Prop where
  kept : MemoryReserved reserved attempt.2
  failed : attempt.1 ≠ 0 → attempt.2 = s

theorem MemoryReserved.fault (kept : MemoryReserved reserved s) {addr : Nat}
    (user : addr < 0xC0000000) (flags : Nat) (clear : Prop) [Decidable clear] :
    FaultKept reserved s (
      let pageAddr := addr &&& 0xFFFFF000
      if vmmIsMapped s.mm pageAddr then (-1, s)
      else
        let allocated := pmmAllocFrame s.mm.pmm
        let m := { s.mm with pmm := allocated.2 }
        if allocated.1 = 0 then (-12, { s with mm := m })
        else
          let m := vmmMapPage m pageAddr allocated.1 flags
          (0, { s with mm := if clear then memsetPage m pageAddr else m })) := by
  have page : addr &&& 0xFFFFF000 = addr / 4096 * 4096 := and_pageMask (by omega)
  dsimp only
  split
  · exact ⟨kept, fun _ => rfl⟩
  split
  · rename_i failed
    rw [Pmm.allocFrame_dry failed kept.frames.guarded.memory kept.frames.accounted]
    exact ⟨kept, fun _ => rfl⟩
  rename_i success
  refine ⟨kept.setMm ?_, fun failed => absurd rfl failed⟩
  have given := kept.frames.give success
    (user_ne_recursive (show addr &&& 0xFFFFF000 < 0xC0000000 by omega)) flags
  split
  · refine (given.same (given.kept.guarded.memset_same (fun present => (given.own present).1) ?_)).kept
    intro unaligned
    omega
  · exact given.kept

theorem MemoryReserved.pageFault (kept : MemoryReserved reserved s) (faultAddr errorCode : Nat) :
    MemoryReserved reserved (handlePageFault s faultAddr errorCode).2 := by
  have demanded : FaultKept reserved s (demandFault s faultAddr) := by
    unfold demandFault
    split
    · exact ⟨kept, fun _ => rfl⟩
    rename_i pid index found
    split
    · have inside := (vmaFind_some found).2.2.2.2
      have below := (kept.areas pid index).2
      simp only [userMmapEnd] at below
      exact kept.fault (by omega) _ ((s.processVmas pid index).flags &&& mapAnonymous ≠ 0)
    · exact ⟨kept, fun _ => rfl⟩
  have noCow : s.NoCow := fun pid index => (kept.areas pid index).1
  simp only [handlePageFault, cowHandleFault_none noCow, ite_self]
  rw [if_neg (by decide)]
  split
  · exact demanded.kept
  rename_i failed
  rw [demanded.failed failed]
  split
  · rename_i stack
    have top : faultAddr < 0xC0000000 := by
      have below := stack.2
      simp only [userStackTop] at below
      omega
    have grown := kept.fault top (pageUser ||| pagePresent ||| pageWrite) True
    simp only [if_true] at grown
    split <;> exact grown.kept
  · exact kept

/-! Drivers. -/

theorem e1000Send_reserved {m : Mm} (kept : ReservedKept reserved m) (positive : 0 < reserved)
    (data : Buffer) (length : Nat) (success : (pmmAllocFrame m.pmm).1 ≠ 0)
    (outside : pdIndex (u32 ((pmmAllocFrame m.pmm).1 + kernelVma) &&& 0xFFFFF000) ≠ recursivePdIndex) :
    ReservedKept reserved (e1000Send m data length) := by
  unfold e1000Send
  split
  · exact kept
  rename_i short
  have beyond := kept.beyond success
  have given := kept.give success outside (pagePresent ||| pageWrite)
  obtain ⟨frame, _, address, _⟩ := kept.accounted.allocFrame_success success
  have buffer := u32_lt ((pmmAllocFrame m.pmm).1 + kernelVma)
  have whole : u32 ((pmmAllocFrame m.pmm).1 + kernelVma) % 4096 = 0 := by
    simp only [kernelVma, u32]
    omega
  dsimp only
  generalize u32 ((pmmAllocFrame m.pmm).1 + kernelVma) = buf at *
  have page : buf &&& 0xFFFFF000 = buf := by
    rw [and_pageMask buffer]
    omega
  rw [page] at given outside ⊢
  have written := given.kept.guarded.setBytes buf length (fun i => (data i).toNat)
    fun i below => by
      have address : u32 (buf + i) = buf + i := u32_eq_of_lt (by
        simp only [e1000RxBufferSize] at short
        omega)
      have same : pageOf (u32 (buf + i)) = pageOf buf := by
        rw [address, pageOf_word (address ▸ u32_lt _), pageOf_word buffer]
        simp only [e1000RxBufferSize] at short
        omega
      rw [Maps, entry_congr _ same]
      exact fun present => (given.own present).1
  have copied := written.keeps given.kept
  have unmapped := copied.kept.unmapPage outside
  exact unmapped.kept.freeFrame positive beyond
    (unmapped.harmless _ (copied.harmless _ given.taken)).1

/-! The system. -/

structure SystemReserved (reserved : Nat) (s : FrameSystem) : Prop where
  memory : MemoryReserved reserved s.memory
  held : ∀ addr ∈ s.held, reserved ≤ addr / 4096

/-- `mmap` needs no page table with one frame left, `munmap` stays below the kernel, the
window is not mapped over, `e1000_send` finds a frame, and no page table is written through
a user page or freed. -/
def ReservedCareful (s : FrameSystem) : FrameUse → Prop
  | .call (.mmap addr length prot flags) => MmapLinks s.memory addr length prot flags
  | .call (.munmap addr length) => MunmapPlain s.memory addr length
  | .call (.shmget key size) => StaysInUserHalf s.memory (.shmget key size)
  | .call (.shmat shmid vaddr) => (s.memory.shmRegions shmid).inUse = true →
      OutsideWindow vaddr (shmPages (s.memory.shmRegions shmid).size)
  | .call (.shmdt addr) => ∀ shmid, shmFirst s.memory = some shmid →
      OutsideWindow addr (shmPages (s.memory.shmRegions shmid).size)
  | .shmDestroy shmid => (s.memory.shmRegions shmid).inUse = true →
      ∀ i < shmPages (s.memory.shmRegions shmid).size,
        s.memory.mm.FreshTable (shmFrame (s.memory.shmRegions shmid).physAddr i / 4096)
  | .load data _ _ => ∀ index < elfPhnum data, (elfPhdr data index).type = ptLoad →
      SegmentPlain s.memory.mm (elfPhdr data index)
  | .heapGrow start stop => ∀ page ∈ pageLoop start stop, pdIndex page ≠ recursivePdIndex
  | .send _ _ => (pmmAllocFrame s.memory.mm.pmm).1 ≠ 0 ∧
      pdIndex (u32 ((pmmAllocFrame s.memory.mm.pmm).1 + kernelVma) &&& 0xFFFFF000) ≠ recursivePdIndex
  | .free addr => s.memory.mm.FreshTable (addr / 4096)
  | .call (.mprotect _ _ _) | .call (.setCurrent _) | .pageFault _ _ | .alloc => True

theorem SystemReserved.step {s : FrameSystem} (kept : SystemReserved reserved s)
    (positive : 0 < reserved) {use : FrameUse} (careful : ReservedCareful s use) :
    SystemReserved reserved (frameStep s use) := by
  obtain ⟨memory, held⟩ := kept
  cases use with
  | call call =>
      refine ⟨?_, held⟩
      cases call with
      | mmap addr length prot flags => exact memory.mmap positive careful
      | munmap addr length => exact memory.munmap positive careful
      | mprotect addr length prot => exact memory.mprotect addr length prot
      | shmget key size => exact memory.shmget positive careful
      | shmat shmid vaddr => exact memory.shmat careful
      | shmdt addr => exact memory.shmdt careful
      | setCurrent pid => exact ⟨memory.frames, memory.areas, memory.regions, memory.aligned⟩
  | shmDestroy shmid => exact ⟨memory.shmDestroy positive careful, held⟩
  | pageFault faultAddr errorCode => exact ⟨memory.pageFault faultAddr errorCode, held⟩
  | load data size proc =>
      exact ⟨memory.setMm (elfLoadFromMemory_reserved memory.frames careful), held⟩
  | heapGrow start stop => exact ⟨memory.setMm (heapMapPages_reserved memory.frames careful), held⟩
  | send data length =>
      exact ⟨memory.setMm (e1000Send_reserved memory.frames positive data length careful.1 careful.2),
        held⟩
  | alloc =>
      refine ⟨memory.setMm memory.frames.allocFrame.kept, fun addr member => ?_⟩
      simp only [frameStep] at member
      split at member
      · exact held addr member
      · rename_i success
        rcases List.mem_cons.mp member with rfl | earlier
        · exact memory.frames.beyond success
        · exact held addr earlier
  | free addr =>
      simp only [frameStep]
      split
      · rename_i mine
        refine ⟨memory.setMm (memory.frames.freeFrame positive (held addr mine) careful), ?_⟩
        exact fun other member => held other (List.mem_of_mem_erase member)
      · exact ⟨memory, held⟩

/-! The start. -/

/-- The number of the frames below 1 MiB, of the kernel and of the bitmap behind it. -/
def reservedFrames (pmm : Pmm) (kernelEndPhys : Nat) : Nat :=
  min pmm.totalFrames (max 256 (alignUp (u32 (kernelEndPhys + pmm.bitmapSize * 4)) 4096 / 4096))

theorem foldl_bitmapClear_keeps {frames : List Nat} {frame : Nat} (apart : frame ∉ frames) (pmm : Pmm) :
    (frames.foldl Pmm.bitmapClear pmm).bitmapTest frame = pmm.bitmapTest frame ∧
      (frames.foldl Pmm.bitmapClear pmm).bitmapSize = pmm.bitmapSize ∧
      (frames.foldl Pmm.bitmapClear pmm).totalFrames = pmm.totalFrames := by
  induction frames generalizing pmm with
  | nil => exact ⟨rfl, rfl, rfl⟩
  | cons first rest ih =>
      obtain ⟨notFirst, notRest⟩ := not_or.mp (List.mem_cons.not.mp apart)
      obtain ⟨same, size, total⟩ := ih notRest (pmm.bitmapClear first)
      refine ⟨same.trans ?_, size, total⟩
      rw [Pmm.bitmapTest_bitmapClear]
      simp [notFirst]

theorem foldl_markUsed_marks (addrs : List Nat) (pmm : Pmm) :
    (addrs.foldl pmmMarkUsed pmm).bitmapSize = pmm.bitmapSize ∧
      (addrs.foldl pmmMarkUsed pmm).totalFrames = pmm.totalFrames ∧
      ∀ frame < pmm.totalFrames, pmm.bitmapTest frame = true ∨ frame * 4096 ∈ addrs →
        (addrs.foldl pmmMarkUsed pmm).bitmapTest frame = true := by
  induction addrs generalizing pmm with
  | nil => exact ⟨rfl, rfl, fun frame _ used => used.resolve_right (List.not_mem_nil)⟩
  | cons addr rest ih =>
      obtain ⟨size, total, marks⟩ := ih (pmmMarkUsed pmm addr)
      rw [List.foldl_cons]
      rcases pmmMarkUsed_cases pmm addr with ⟨_, _, marked⟩ | ⟨idle, same⟩
      · refine ⟨size.trans (by rw [marked]; rfl), total.trans (by rw [marked]; rfl),
          fun frame bound used => marks frame (by rw [marked]; exact bound) ?_⟩
        rw [marked, Pmm.bitmapTest_bitmapSet]
        rcases used with used | member
        · simp [used]
        rcases List.mem_cons.mp member with here | later
        · simp [← here]
        · exact .inr later
      · rw [same] at size total marks ⊢
        refine ⟨size, total, fun frame bound used => marks frame bound ?_⟩
        rcases used with used | member
        · exact .inl used
        rcases List.mem_cons.mp member with here | later
        · rw [← here, Nat.mul_div_cancel _ (by decide)] at idle
          exact .inl (idle.resolve_left (Nat.not_le.mpr bound))
        · exact .inr later

theorem pmmInit_reserved (mboot : MultibootInfo) (kernelEndPhys : Nat) :
    ∀ frame < reservedFrames (pmmInit mboot kernelEndPhys) kernelEndPhys,
      (pmmInit mboot kernelEndPhys).bitmapTest frame = true := by
  unfold pmmInit
  dsimp only
  generalize (if (if mboot.flags &&& 1 ≠ 0 then u32 (u32 (mboot.memUpper + 1024) * 1024)
    else 256 * 1024 * 1024) = 0 then 256 * 1024 * 1024 else
      if mboot.flags &&& 1 ≠ 0 then u32 (u32 (mboot.memUpper + 1024) * 1024)
      else 256 * 1024 * 1024) = memory
  generalize totalEq : memory / 4096 = total
  generalize sizeEq : (total + 31) / 32 = size
  let full : Pmm :=
    { bitmap := fun index => if index < size then BitVec.allOnes 32 else 0#32
      bitmapSize := size, totalFrames := total, usedFrames := total, totalMemory := memory }
  let released := (List.range' 256 (total - 256)).foldl Pmm.bitmapClear full
  change ∀ frame < reservedFrames (List.foldl pmmMarkUsed released _) kernelEndPhys,
    (List.foldl pmmMarkUsed released _).bitmapTest frame = true
  obtain ⟨sizeMarked, totalMarked, marks⟩ := foldl_markUsed_marks
    (pageLoop 0x100000 (alignUp (u32 (kernelEndPhys + size * 4)) 4096)) released
  obtain ⟨_, sizeReleased, totalReleased⟩ := @foldl_bitmapClear_keeps
    (List.range' 256 (total - 256)) 0 (by simp) full
  intro frame below
  rw [reservedFrames, sizeMarked, sizeReleased, totalMarked] at below
  have inside : frame < released.totalFrames := by omega
  refine marks frame inside ?_
  by_cases low : frame < 256
  · left
    have kept := (@foldl_bitmapClear_keeps (List.range' 256 (total - 256)) frame
      (by rw [List.mem_range']; omega) full).1
    refine kept.trans (PackedBitmap.test_allOnes (by omega) full.bitmap frame (if_pos ?_))
    rw [totalReleased] at inside
    show frame / 32 < size
    have bound : frame < total := inside
    omega
  · right
    have bound : frame < alignUp (u32 (kernelEndPhys + size * 4)) 4096 / 4096 :=
      ((lt_min_iff.mp below).2 |> lt_max_iff.mp).resolve_left low
    exact mem_pageLoop.mpr ⟨by omega, by omega, by omega⟩

def FrameUsed (s : FrameSystem) (use : FrameUse) (after : FrameSystem) : Prop :=
  after = frameStep s use

/-- The machine after `vmm_init`, with the page tables it boots with in reserved frames. -/
def FrameStart (mboot : MultibootInfo) (kernelEndPhys directory table : Nat) (s : FrameSystem) :
    Prop :=
  ∃ pid, s =
    { memory := .start (bootMm (pmmInit mboot kernelEndPhys) directory table) pid, held := [] }

/-- Where the kernel's directory and its page table lie: in frames of the kernel. -/
structure BootTables (mboot : MultibootInfo) (kernelEndPhys directory table : Nat) : Prop where
  apart : directory ≠ table
  kernel : 0 < directory ∧ 0 < table
  reserved : ∀ frame, frame = directory ∨ frame = table →
    frame < reservedFrames (pmmInit mboot kernelEndPhys) kernelEndPhys

theorem systemReserved_start {mboot : MultibootInfo} {kernelEndPhys directory table : Nat}
    (boot : BootTables mboot kernelEndPhys directory table) {s : FrameSystem}
    (start : FrameStart mboot kernelEndPhys directory table s) :
    SystemReserved (reservedFrames (pmmInit mboot kernelEndPhys) kernelEndPhys) s := by
  obtain ⟨pid, rfl⟩ := start
  have accounted := pmmInit_accounted mboot kernelEndPhys
  have small := accounted.small
  have used := pmmInit_reserved mboot kernelEndPhys
  have inside : reservedFrames (pmmInit mboot kernelEndPhys) kernelEndPhys ≤
      (pmmInit mboot kernelEndPhys).totalFrames := Nat.min_le_left _ _
  have directoryReserved := boot.reserved directory (.inl rfl)
  have tableReserved := boot.reserved table (.inr rfl)
  have guarded : (bootMm (pmmInit mboot kernelEndPhys) directory table).Guarded :=
    bootMm_guarded small (by omega) (by omega) boot.apart
      ⟨Nat.ne_of_gt boot.kernel.1, Nat.ne_of_gt boot.kernel.2⟩
      ⟨used _ directoryReserved, used _ tableReserved⟩
  refine ⟨⟨⟨guarded, accounted, used, fun virt user present => ?_⟩, fun _ _ => ⟨rfl, Nat.zero_le _⟩,
    fun _ used => absurd used Bool.false_ne_true, (by decide : userMmapStart % 4096 = 0)⟩,
    fun _ member => absurd member List.not_mem_nil⟩
  -- The user half has no page at the start.
  have low := pdIndex_user user
  rcases bootMm_slots _ (by omega) (by omega) (hasTable_of_mapped present) with ⟨top, _⟩ | ⟨kernel, _⟩
  · simp only [recursivePdIndex] at top
    omega
  · omega

/-- In a run of careful uses no frame of low memory, of the kernel or of the bitmap becomes
free, and an allocation that fails changes nothing. -/
theorem reserved_frames_kept {mboot : MultibootInfo} {kernelEndPhys directory table : Nat}
    (boot : BootTables mboot kernelEndPhys directory table) {s : FrameSystem}
    (reached : Reachable (FrameStart mboot kernelEndPhys directory table)
      (Restricted ReservedCareful FrameUsed) s) :
    (∀ frame < reservedFrames (pmmInit mboot kernelEndPhys) kernelEndPhys,
        s.memory.mm.pmm.bitmapTest frame = true) ∧
      ((pmmAllocFrame s.memory.mm.pmm).1 = 0 →
        (pmmAllocFrame s.memory.mm.pmm).2 = s.memory.mm.pmm) := by
  have positive : 0 < reservedFrames (pmmInit mboot kernelEndPhys) kernelEndPhys :=
    Nat.zero_lt_of_lt (boot.reserved directory (.inl rfl))
  have kept : SystemReserved (reservedFrames (pmmInit mboot kernelEndPhys) kernelEndPhys) s := by
    refine reached.invariant
      (SystemReserved (reservedFrames (pmmInit mboot kernelEndPhys) kernelEndPhys)) ?_ ?_
    · exact fun s start => systemReserved_start boot start
    · rintro s use after kept ⟨careful, rfl⟩
      exact kept.step positive careful
  have frames := kept.memory.frames
  exact ⟨frames.used, fun failed => Pmm.allocFrame_dry failed frames.guarded.memory frames.accounted⟩

/-- 272 frames, of which the kernel and the bitmap take 256 to 260. -/
def bootedSystem : FrameSystem :=
  { memory := .start (bootMm (pmmInit ⟨1, 64⟩ 0x104000) 257 258) (some 1), held := [] }

theorem bootedSystem_tables : BootTables ⟨1, 64⟩ 0x104000 257 258 := by
  refine ⟨by decide, by decide, ?_⟩
  rintro frame (rfl | rfl)
  · decide
  · decide

def mappedSystem : FrameSystem := frameStep bootedSystem (.call (.mmap 0x40000000 0x2000 3 0x30))

theorem mappedSystem_careful : ReservedCareful bootedSystem (.call (.mmap 0x40000000 0x2000 3 0x30)) :=
  ⟨.inr (.inl (by decide)), fun _ _ _ => by decide⟩

theorem reserved_frames_kept_booted :
    (frameStep mappedSystem (.send (fun _ => 0) 64)).memory.mm.pmm.bitmapTest 260 = true := by
  have reached : Reachable (FrameStart ⟨1, 64⟩ 0x104000 257 258)
      (Restricted ReservedCareful FrameUsed) (frameStep mappedSystem (.send (fun _ => 0) 64)) := by
    have sends : ReservedCareful mappedSystem (.send (fun _ => 0) 64) := ⟨by decide, by decide⟩
    exact .next (.next (.start ⟨some 1, rfl⟩) ⟨mappedSystem_careful, rfl⟩) ⟨sends, rfl⟩
  exact (reserved_frames_kept bootedSystem_tables reached).1 260 (by decide)

/-- A `munmap` that reaches the kernel's first page frees frame 0. -/
theorem munmap_frees_reserved : BootTables ⟨1, 64⟩ 0x104000 257 258 ∧
    ∃ s, Reachable (FrameStart ⟨1, 64⟩ 0x104000 257 258) FrameUsed s ∧
      ¬ ∀ frame < reservedFrames (pmmInit ⟨1, 64⟩ 0x104000) 0x104000,
        s.memory.mm.pmm.bitmapTest frame = true := by
  refine ⟨bootedSystem_tables, frameStep mappedSystem (.call (.munmap 0x40000000 0x80001000)),
    .next (.next (.start ⟨some 1, rfl⟩) rfl) rfl, fun all => ?_⟩
  have kept : SystemReserved (reservedFrames (pmmInit ⟨1, 64⟩ 0x104000) 0x104000) mappedSystem :=
    (systemReserved_start bootedSystem_tables ⟨some 1, rfl⟩).step (by decide) mappedSystem_careful
  have success : (sysMunmap mappedSystem.memory 0x40000000 0x80001000).1 = 0 := by decide
  obtain ⟨pid, index, done⟩ := sysMunmap_success success
  have area : vmaFind mappedSystem.memory 0x40000000 = some (1, 0) := by decide
  cases area.symm.trans done.found
  have stop : u32 (0x40000000 + roundLength 0x80001000) = 0xC0001000 := by decide
  have isPrivate : decide ((mappedSystem.memory.processVmas 1 0).flags &&& mapShared ≠ 0) = false := by
    decide
  have pages := done.mm
  rw [stop, isPrivate] at pages
  have below : ∀ page ∈ pageLoop 0x40000000 0xC0001000, pageOf page < 0xFFFFF :=
    pageLoop_below (by decide) (by decide)
  have unmapped := munmapPages_unmapped kept.memory.frames.guarded.toTablesSound false below
    (pageLoop_ascending (by decide))
  have used := all 0 (by decide)
  change (sysMunmap mappedSystem.memory 0x40000000 0x80001000).2.mm.pmm.bitmapTest 0 = true at used
  rw [pages, unmapped.used] at used
  exact used.2 ⟨rfl, by decide, 0xC0000000, mem_pageLoop.mpr (by decide), by decide, by decide⟩

end ZurichOS
