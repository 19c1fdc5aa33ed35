import ZurichOS.Frames
import ZurichOS.ProcessTable
import ZurichOS.VmaTable

set_option linter.all false

/-!
Which calls keep every user frame either mapped or free.  The loops of `mmap`, `munmap` and
the program loader give and take frames one page at a time.
-/

namespace ZurichOS

open Words ByteBuffer Transitions FrameLedger Mm

theorem pageLoop_apart (start stop : Nat) :
    (pageLoop start stop).Pairwise fun first second => first / 4096 ≠ second / 4096 := by
  rw [pageLoop, List.pairwise_map]
  exact List.pairwise_lt_range.imp fun less => by omega

theorem FrameRoom.place_mapped {room : FrameRoom} {page other : Nat} :
    (room.place page).mapped (other / 4096) = true ↔
      other / 4096 = page / 4096 ∨ room.mapped (other / 4096) = true := by
  simp only [place, Function.update_apply]
  split <;> simp [*]

section Loops

variable {start : Pmm} {m : Mm}

theorem Mm.FramesKept.isMapped (kept : FramesKept start m) {page : Nat} (user : page < 0xC0000000) :
    vmmIsMapped m page = m.room.mapped (page / 4096) := by
  rw [vmmIsMapped_eq kept.guarded.toTablesSound]
  show _ = (m.userFrame (page / 4096)).isSome
  rw [userFrame_virt user]
  split
  · rename_i present
    exact bne_iff_ne.mpr present
  · rename_i absent
    exact Bool.eq_false_iff.mpr fun present => absent (bne_iff_ne.mp present)

theorem Mm.FramesKept.rollback_page (kept : FramesKept start m) {page : Nat}
    (user : page < 0xC0000000) (mapped : m.room.mapped (page / 4096) = true) :
    FramesKept start (mmapRollback m page) ∧
      ∀ other, other / 4096 ≠ page / 4096 → m.room.mapped (other / 4096) = true →
        (mmapRollback m page).room.mapped (other / 4096) = true := by
  rw [← kept.isMapped user, vmmIsMapped_iff kept.guarded.toTablesSound] at mapped
  obtain ⟨after, frames⟩ := kept.release user mapped
  rw [mmapRollback, vmmUnmapPage_pmm]
  refine ⟨after, fun other apart before => ?_⟩
  show (Mm.userFrame { vmmUnmapPage m page with
    pmm := pmmFreeFrame m.pmm (vmmGetPhysical m page) } (other / 4096)).isSome = true
  rw [frames, Function.update_of_ne apart]
  exact before

theorem mmapRollback_kept (kept : FramesKept start m) {pages : List Nat}
    (apart : pages.Pairwise fun first second => first / 4096 ≠ second / 4096)
    (mapped : ∀ page ∈ pages, page < 0xC0000000 ∧ m.room.mapped (page / 4096) = true) :
    FramesKept start (pages.foldl mmapRollback m) := by
  induction pages generalizing m with
  | nil => exact kept
  | cons page rest ih =>
      obtain ⟨others, apart⟩ := List.pairwise_cons.mp apart
      obtain ⟨user, own⟩ := mapped page (by simp)
      obtain ⟨after, still⟩ := kept.rollback_page user own
      refine ih after apart fun other member => ?_
      obtain ⟨otherUser, before⟩ := mapped other (by simp [member])
      exact ⟨otherUser, still other (Ne.symm (others other member)) before⟩

theorem munmapPages_kept (kept : FramesKept start m) (shared : Bool) {pages : List Nat}
    (user : ∀ page ∈ pages, page < 0xC0000000)
    (unshared : shared = true → ∀ page ∈ pages, vmmIsMapped m page = false) :
    FramesKept start (pages.foldl (munmapPage shared) m) := by
  induction pages generalizing m with
  | nil => exact kept
  | cons page rest ih =>
      have low := user page (by simp)
      have later := fun other member => user other (List.mem_cons_of_mem page member)
      rw [List.foldl_cons, munmapPage]
      cases mapped : vmmIsMapped m page with
      | false =>
          exact ih kept later fun isShared other member => unshared isShared other (by simp [member])
      | true =>
          cases shared with
          | true =>
              rw [unshared rfl page (by simp)] at mapped
              cases mapped
          | false =>
              rw [kept.isMapped low] at mapped
              refine ih (kept.rollback_page low mapped).1 later fun isShared => ?_
              exact absurd isShared Bool.false_ne_true

theorem mmapPages_kept (kept : FramesKept start m) {vaddr stop : Nat} (user : stop ≤ 0x80000000)
    (takes : m.room.takes (pageLoop vaddr stop) = true) :
    FramesKept start (mmapPages vaddr (pageLoop vaddr stop) m).2 := by
  refine mmapPages_rule (fun front rest now => FramesKept start now ∧
    (∀ p ∈ front, p < 0xC0000000 ∧ now.room.mapped (p / 4096) = true) ∧ now.room.takes rest = true)
    (fun result => FramesKept start result.2) ?_ ?_ (fun now all => all.1) ⟨kept, by simp, takes⟩
  · rintro front page rest now shape ⟨kept, done, takes⟩ success
    have inside : page ∈ pageLoop vaddr stop := by simp [shape]
    rw [mem_pageLoop] at inside
    have some : now.room.free ≠ 0 := fun dry => success (kept.accounted.allocFrame_dry_iff.mpr dry)
    simp only [FrameRoom.takes, Bool.or_eq_true, beq_iff_eq, some, false_or,
      Bool.and_eq_true] at takes
    obtain ⟨mapped, room⟩ := kept.place success takes.1 (pageUser ||| pagePresent ||| pageWrite)
    have cleared := mapped.memsetPage (.inl (show page < 0xBFFFF000 by omega))
    rw [← room, ← cleared.room] at takes
    refine ⟨cleared.kept mapped, fun p member => ?_, takes.2⟩
    rw [mmapStep, cleared.room, room, FrameRoom.place_mapped]
    rcases List.mem_append.mp member with earlier | last
    · exact ⟨(done p earlier).1, .inr (done p earlier).2⟩
    · cases List.mem_singleton.mp last
      exact ⟨by omega, .inl rfl⟩
  · rintro front page rest now shape ⟨kept, done, _⟩ failed
    rw [Pmm.allocFrame_dry failed kept.guarded.memory kept.accounted]
    exact mmapRollback_kept kept (List.pairwise_append.mp (shape ▸ pageLoop_apart vaddr stop)).1 done

def ElfPhdr.InUserHalf (phdr : ElfPhdr) : Prop :=
  ∀ i < max phdr.filesz phdr.memsz, u32 (phdr.vaddr + i) < kernelVma

/-- The segments loaded, and then the stack, find their pages unmapped and write no byte of
the kernel half. -/
def SegmentsFit (data : Buffer) : List Nat → FrameRoom → Prop
  | [], room => room.takes elfStackPages = true
  | index :: rest, room =>
      if (elfPhdr data index).type = ptLoad then
        room.takes (elfPhdr data index).pages = true ∧
          ∀ after, room.placeAll (elfPhdr data index).pages = some after →
            (elfPhdr data index).InUserHalf ∧ SegmentsFit data rest after
      else SegmentsFit data rest room

theorem elfMapPages_kept (kept : FramesKept start m) {pages : List Nat}
    (takes : m.room.takes pages = true) :
    FramesKept start (elfMapPages pages m).2 ∧ ((elfMapPages pages m).1 = true →
      m.room.placeAll pages = some (elfMapPages pages m).2.room) := by
  induction pages generalizing m with
  | nil => exact ⟨kept, fun _ => rfl⟩
  | cons page rest ih =>
      simp only [elfMapPages, FrameRoom.placeAll]
      by_cases failed : (pmmAllocFrame m.pmm).1 = 0
      · rw [if_pos failed, Pmm.allocFrame_dry failed kept.guarded.memory kept.accounted]
        exact ⟨kept, fun all => absurd all Bool.false_ne_true⟩
      · have some : m.room.free ≠ 0 := fun dry =>
          failed (kept.accounted.allocFrame_dry_iff.mpr dry)
        simp only [FrameRoom.takes, Bool.or_eq_true, beq_iff_eq, some, false_or,
          Bool.and_eq_true] at takes
        obtain ⟨mapped, room⟩ := kept.place failed takes.1 (pagePresent ||| pageWrite ||| pageUser)
        rw [if_neg failed, if_neg some, ← room]
        exact ih mapped (room ▸ takes.2)

theorem Mm.Guarded.elfCopySegment (guarded : m.Guarded) (data : Buffer) {phdr : ElfPhdr}
    (plain : ∀ i < max phdr.filesz phdr.memsz, m.Maps (u32 (phdr.vaddr + i)) m.FreshTable) :
    SameFrames m (ZurichOS.elfCopySegment data phdr m) := by
  have copied := guarded.setBytes phdr.vaddr phdr.filesz
    (fun i => (data (phdr.offset + i)).toNat) fun i below => plain i (by omega)
  simp only [ZurichOS.elfCopySegment]
  split
  · refine copied.trans ((copied.guarded guarded).setBytes _ _ _ fun i below => ?_)
    have address : u32 (u32 (phdr.vaddr + phdr.filesz) + i) =
        u32 (phdr.vaddr + (phdr.filesz + i)) := by
      unfold u32
      omega
    rw [address]
    exact (plain (phdr.filesz + i) (by omega)).of_entry
      (fun frame => (copied.freshTable frame).mpr) (.inl (copied.entry _))
  · exact copied

theorem elfLoadSegments_kept (kept : FramesKept start m) {data : Buffer} {indices : List Nat}
    (fit : SegmentsFit data indices m.room) :
    FramesKept start (elfLoadSegments data indices m).2 ∧
      ((elfLoadSegments data indices m).1 = true →
        (elfLoadSegments data indices m).2.room.takes elfStackPages = true) := by
  induction indices generalizing m with
  | nil => exact ⟨kept, fun _ => fit⟩
  | cons index rest ih =>
      simp only [SegmentsFit] at fit
      simp only [elfLoadSegments]
      by_cases load : (elfPhdr data index).type = ptLoad
      · rw [if_pos load] at fit ⊢
        obtain ⟨mapped, room⟩ := elfMapPages_kept kept fit.1
        split
        · rename_i all
          obtain ⟨user, later⟩ := fit.2 _ (room all)
          have copied := mapped.guarded.elfCopySegment data fun i below =>
            mapped.fresh (user i (by omega))
          exact ih (copied.kept mapped) (copied.room.symm ▸ later)
        · rename_i short
          exact ⟨mapped, fun all => absurd all short⟩
      · rw [if_neg load] at fit ⊢
        exact ih kept fit

theorem elfLoadFromMemory_kept (kept : FramesKept start m) {data : Buffer} {size proc : Nat}
    (fit : elfHeaderValid data size = true → proc ≠ 0 →
      SegmentsFit data (List.range (elfPhnum data)) m.room) :
    FramesKept start (elfLoadFromMemory m data size proc).2 := by
  unfold elfLoadFromMemory
  split
  · exact kept
  rename_i valid
  split
  · exact kept
  rename_i made
  obtain ⟨loaded, room⟩ := elfLoadSegments_kept kept (fit (by simpa using valid) made)
  dsimp only
  split
  · rename_i all
    exact (elfMapPages_kept loaded (room all)).1
  · exact loaded

end Loops

section Calls

variable {start : Pmm} {s : UserMemory}

def UserMemory.NoCow (s : UserMemory) : Prop := ∀ pid index, (s.processVmas pid index).cow = false

structure MemoryKept (start : Pmm) (s : UserMemory) : Prop where
  frames : FramesKept start s.mm
  noCow : s.NoCow

theorem UserMemory.NoCow.setVma (noCow : s.NoCow) (pid index : Nat) {vma : Vma}
    (same : vma.cow = false) : (s.setVma pid index vma).NoCow := by
  intro owner other
  simp only [UserMemory.setVma]
  split
  · exact same
  · exact noCow owner other

theorem MemoryKept.setMm (kept : MemoryKept start s) {mm : Mm} (frames : FramesKept start mm) :
    MemoryKept start { s with mm } := ⟨frames, kept.noCow⟩

theorem MemoryKept.setVma (kept : MemoryKept start s) (pid index : Nat) {vma : Vma}
    (same : vma.cow = false) : MemoryKept start (s.setVma pid index vma) :=
  ⟨kept.frames, kept.noCow.setVma pid index same⟩

/-- An accepted anonymous `mmap` that gets a slot finds its pages unmapped, and a frame for
each table they need. -/
def MmapFits (s : UserMemory) (addr length flags : Nat) : Prop :=
  flags &&& mapAnonymous ≠ 0 → mmapAccepted s addr length flags →
    (∃ pid, getVmaTable s = some pid ∧
      ∃ index < maxVmasPerProc, (s.processVmas pid index).inUse = false) →
    s.mm.room.takes (pageLoop (mmapAddress s addr flags)
      (u32 (mmapAddress s addr flags + roundLength length))) = true

theorem sysMmap_kept (kept : MemoryKept start s) {addr length prot flags : Nat}
    (fits : MmapFits s addr length flags) :
    MemoryKept start (sysMmap s addr length prot flags).2 := by
  obtain ⟨mm, vmas, pid⟩ := bump_same s length flags
  have noCow : (s.bump length flags).NoCow := fun owner other => vmas ▸ kept.noCow owner other
  rcases sysMmap_cases s addr length prot flags with ⟨_, after⟩ | ⟨accepted, ⟨_, after⟩ | made⟩
  · rw [after]
    exact kept
  · rw [after]
    exact ⟨mm ▸ kept.frames, noCow⟩
  obtain ⟨owner, index, made, created, mapped⟩ := made
  obtain ⟨table, inside, free, vma, ⟨_, _, _, vmaCow⟩, rfl⟩ := vmaCreate_eq_some created
  have stays := noCow.setVma owner index vmaCow
  have created : MemoryKept start ((s.bump length flags).setVma owner index vma) :=
    ⟨mm ▸ kept.frames, stays⟩
  rcases mapped with ⟨_, after⟩ | ⟨anonymous, after⟩
  · rw [after]
    exact created.setVma owner index (stays owner index)
  · have slot : getVmaTable s = some owner := by
      rw [← table, getVmaTable, getVmaTable, pid]
    rw [vmas] at free
    have looped := mmapPages_kept kept.frames
      (Nat.le_of_not_lt fun beyond => accepted.2 (.inr beyond))
      (fits anonymous accepted ⟨owner, slot, index, inside, free⟩)
    have placed : ((s.bump length flags).setVma owner index vma).mm = s.mm := mm
    rw [after, UserMemory.mapArea, placed]
    split
    · exact created.setMm looped
    · exact (created.setMm looped).setVma owner index (stays owner index)

/-- A `munmap` that finds its area stays in the user half, and the pages of a shared area
are unmapped already. -/
def MunmapFits (s : UserMemory) (addr length : Nat) : Prop :=
  addr &&& 0xFFF = 0 → length ≠ 0 → ∀ pid index, vmaFind s addr = some (pid, index) →
    ∀ page ∈ pageLoop addr (u32 (addr + roundLength length)), page < kernelVma ∧
      ((s.processVmas pid index).flags &&& mapShared ≠ 0 → vmmIsMapped s.mm page = false)

theorem sysMunmap_kept (kept : MemoryKept start s) {addr length : Nat}
    (fits : MunmapFits s addr length) : MemoryKept start (sysMunmap s addr length).2 := by
  unfold sysMunmap
  split
  · exact kept
  rename_i aligned
  split
  · exact kept
  rename_i positive
  dsimp only
  split
  · exact kept
  rename_i pid index found
  have pages := fits (not_not.mp aligned) positive pid index found
  have looped := munmapPages_kept kept.frames
    (decide ((s.processVmas pid index).flags &&& mapShared ≠ 0))
    (fun page member => (pages page member).1)
    fun shared page member => (pages page member).2 (of_decide_eq_true shared)
  have area := kept.noCow pid index
  have unmapped := kept.setMm looped
  split
  · exact unmapped.setVma pid index area
  split
  · exact unmapped.setVma pid index area
  split
  · exact unmapped.setVma pid index area
  · exact unmapped

/-! Page faults. -/

/-- A fault that allocates finds a table for its page, or a frame for one. -/
def FaultFits (s : UserMemory) (faultAddr : Nat) : Prop :=
  (∃ pid index, vmaFind s faultAddr = some (pid, index) ∧ (s.processVmas pid index).lazy = true) ∨
      (userStackBottom ≤ faultAddr ∧ faultAddr < userStackTop) →
    vmmIsMapped s.mm (faultAddr &&& 0xFFFFF000) = false →
      s.mm.room.takes [faultAddr &&& 0xFFFFF000] = true

theorem cowHandleFault_none (noCow : s.NoCow) (faultAddr : Nat) :
    cowHandleFault s faultAddr = (-1, s) := by
  unfold cowHandleFault
  dsimp only
  split
  · rfl
  · rw [noCow]
    rfl

theorem faultPage_kept (kept : MemoryKept start s) {addr : Nat}
    (takes : s.mm.room.takes [addr &&& 0xFFFFF000] = true)
    (success : (pmmAllocFrame s.mm.pmm).1 ≠ 0) (flags : Nat) :
    let mapped := vmmMapPage { s.mm with pmm := (pmmAllocFrame s.mm.pmm).2 } (addr &&& 0xFFFFF000)
      (pmmAllocFrame s.mm.pmm).1 flags
    MemoryKept start { s with mm := mapped } ∧
      MemoryKept start { s with mm := memsetPage mapped (addr &&& 0xFFFFF000) } := by
  intro mapped
  have some : s.mm.room.free ≠ 0 := fun dry =>
    success (kept.frames.accounted.allocFrame_dry_iff.mpr dry)
  simp only [FrameRoom.takes, Bool.or_eq_true, beq_iff_eq, some, false_or, Bool.and_true] at takes
  have placed : FramesKept start mapped := (kept.frames.place success takes flags).1
  simp only [FrameRoom.fits, Bool.and_eq_true, decide_eq_true_eq] at takes
  have aligned : (addr &&& 0xFFFFF000) % 4096 = 0 := by
    rw [← and_offsetMask, Nat.and_assoc]
    exact Nat.and_zero addr
  exact ⟨⟨placed, kept.noCow⟩,
    ⟨(placed.memsetPage (.inr ⟨aligned, takes.1.1⟩)).kept placed, kept.noCow⟩⟩

/-- What an attempt to map a page for a fault does: it may map the page, and else nothing. -/
structure Attempted (start : Pmm) (s : UserMemory) (attempt : Int × UserMemory) : Prop where
  kept : MemoryKept start attempt.2
  failed : attempt.1 ≠ 0 → attempt.2 = s

/-- A page that is not mapped gets a frame, if there is one, which may be cleared. -/
theorem fault_attempted (kept : MemoryKept start s) {addr : Nat}
    (takes : vmmIsMapped s.mm (addr &&& 0xFFFFF000) = false →
      s.mm.room.takes [addr &&& 0xFFFFF000] = true) (flags : Nat) (clear : Prop)
    [Decidable clear] :
    Attempted start s (
      let pageAddr := addr &&& 0xFFFFF000
      if vmmIsMapped s.mm pageAddr then (-1, s)
      else
        let allocated := pmmAllocFrame s.mm.pmm
        let m := { s.mm with pmm := allocated.2 }
        if allocated.1 = 0 then (-12, { s with mm := m })
        else
          let m := vmmMapPage m pageAddr allocated.1 flags
          (0, { s with mm := if clear then memsetPage m pageAddr else m })) := by
  dsimp only
  split
  · exact ⟨kept, fun _ => rfl⟩
  rename_i unmapped
  split
  · rename_i failed
    rw [Pmm.allocFrame_dry failed kept.frames.guarded.memory kept.frames.accounted]
    exact ⟨kept, fun _ => rfl⟩
  · rename_i success
    obtain ⟨mapped, cleared⟩ :=
      faultPage_kept kept (takes (Bool.not_eq_true _ ▸ unmapped)) success flags
    refine ⟨?_, fun failed => absurd rfl failed⟩
    by_cases clears : clear
    · rw [if_pos clears]
      exact cleared
    · rw [if_neg clears]
      exact mapped

theorem demandPageAlloc_attempted (kept : MemoryKept start s) {addr : Nat}
    (takes : vmmIsMapped s.mm (addr &&& 0xFFFFF000) = false →
      s.mm.room.takes [addr &&& 0xFFFFF000] = true) (vma : Vma) :
    Attempted start s (demandPageAlloc s addr vma) :=
  fault_attempted kept takes _ (vma.flags &&& mapAnonymous ≠ 0)

theorem stackGrow_attempted (kept : MemoryKept start s) {addr : Nat}
    (takes : vmmIsMapped s.mm (addr &&& 0xFFFFF000) = false →
      s.mm.room.takes [addr &&& 0xFFFFF000] = true) :
    Attempted start s (stackGrow s addr) := by
  have grown := fault_attempted kept takes (pageUser ||| pagePresent ||| pageWrite) True
  simp only [if_true] at grown
  exact grown

theorem demandFault_attempted (kept : MemoryKept start s) {addr : Nat} (fits : FaultFits s addr) :
    Attempted start s (demandFault s addr) := by
  unfold demandFault
  split
  · exact ⟨kept, fun _ => rfl⟩
  rename_i pid index found
  split
  · rename_i lazy
    exact demandPageAlloc_attempted kept (fits (.inl ⟨pid, index, found, lazy⟩)) _
  · exact ⟨kept, fun _ => rfl⟩

theorem handlePageFault_kept (kept : MemoryKept start s) {addr errorCode : Nat}
    (fits : FaultFits s addr) : MemoryKept start (handlePageFault s addr errorCode).2 := by
  have demanded := demandFault_attempted kept fits
  simp only [handlePageFault, cowHandleFault_none kept.noCow, ite_self]
  rw [if_neg (by decide)]
  split
  · exact demanded.kept
  rename_i failed
  rw [demanded.failed failed]
  split
  · rename_i stack
    have grown := stackGrow_attempted kept (fits (.inr stack))
    split <;> exact grown.kept
  · exact kept

end Calls

section System

variable {start : Pmm} {s : UserSystem}

/-- What every call keeps of the system: the frames, and that no program has a directory of
its own to free. -/
structure SystemKept (start : Pmm) (s : UserSystem) : Prop where
  memory : MemoryKept start s.memory
  noDir : ∀ proc, s.pageDir proc = 0

def LoadFits (m : Mm) (file : Option ElfFile) (proc : Nat) : Prop :=
  ∀ found, file = some found → elfHeaderValid found.data found.size = true → proc ≠ 0 →
    SegmentsFit found.data (List.range (elfPhnum found.data)) m.room

/-- No call maps a page over another, runs out of frames just where it needs one for a page
table, reaches into the kernel half or unmaps pages of a shared area. -/
def FrameCareful (s : UserSystem) : UserCall → Prop
  | .mmap addr length _ flags => MmapFits s.current addr length flags
  | .munmap addr length => MunmapFits s.current addr length
  | .pageFault faultAddr _ => FaultFits s.current faultAddr
  | .load file proc => LoadFits s.memory.mm file proc
  | .exec _ file proc _ => processCurrent s.processes ≠ none → LoadFits s.memory.mm file proc
  | _ => True

def UserStep (s : UserSystem) (call : UserCall) (after : UserSystem) : Prop :=
  after = userStep s call

theorem SystemKept.current (kept : SystemKept start s) : MemoryKept start s.current :=
  ⟨kept.memory.frames, kept.memory.noCow⟩

theorem elfLoadFromFile_kept (kept : SystemKept start s) {file : Option ElfFile} {proc : Nat}
    (fits : LoadFits s.memory.mm file proc) : SystemKept start (elfLoadFromFile s file proc).2 := by
  unfold elfLoadFromFile
  split
  · exact kept
  rename_i found
  have loaded := elfLoadFromMemory_kept kept.memory.frames (fits found rfl)
  dsimp only
  split
  · exact ⟨⟨loaded, kept.memory.noCow⟩, kept.noDir⟩
  · rename_i made _
    refine ⟨⟨loaded, kept.memory.noCow⟩, fun other => ?_⟩
    show Function.update s.pageDir made 0 other = 0
    rw [Function.update_apply]
    split
    · rfl
    · exact kept.noDir other

theorem freeProgram_kept (kept : SystemKept start s) (proc : Option Nat) :
    SystemKept start (freeProgram s proc) := by
  unfold freeProgram
  split
  · exact kept
  · rw [kept.noDir, elfFreeProcess, if_pos rfl]
    exact kept

theorem SystemKept.step (kept : SystemKept start s) {call : UserCall}
    (careful : FrameCareful s call) : SystemKept start (userStep s call) := by
  cases call with
  | mmap addr length prot flags => exact ⟨sysMmap_kept kept.current careful, kept.noDir⟩
  | munmap addr length => exact ⟨sysMunmap_kept kept.current careful, kept.noDir⟩
  | pageFault faultAddr errorCode => exact ⟨handlePageFault_kept kept.current careful, kept.noDir⟩
  | load file proc => exact elfLoadFromFile_kept kept careful
  | execute | processExit | kill => exact ⟨kept.memory, kept.noDir⟩
  | exec path file proc kernelStack =>
      simp only [userStep, systemExec]
      split
      · exact kept
      rename_i i running
      have loaded := elfLoadFromFile_kept kept (careful (by simp [running]))
      split
      · rename_i after same
        rw [same] at loaded
        exact loaded
      · rename_i made after same
        rw [same] at loaded
        have freed := freeProgram_kept loaded (after.processes.table i).elfProc
        exact ⟨freed.memory, freed.noDir⟩
  | exit =>
      simp only [userStep, systemExit]
      split
      · exact ⟨kept.memory, kept.noDir⟩
      split
      · have freed := freeProgram_kept kept (s.processes.table ‹Nat›).elfProc
        exact ⟨freed.memory, freed.noDir⟩
      · exact ⟨kept.memory, kept.noDir⟩

end System

/-- Every frame that was free at the start and is no page table is mapped by a user page or
free, and no mapped frame is free. -/
structure FramesConserved (start : Pmm) (m : Mm) : Prop where
  covered : ∀ frame < m.pmm.totalFrames, start.bitmapTest frame = false → ¬ m.IsTable frame →
    (∃ page, m.userFrame page = some frame) ∨ m.pmm.bitmapTest frame = false
  exclusive : ∀ page frame, m.userFrame page = some frame → m.pmm.bitmapTest frame = true

theorem Mm.FramesKept.framesConserved {start : Pmm} {m : Mm} (kept : FramesKept start m) :
    FramesConserved start m := by
  refine ⟨fun frame bound isFree noTable => ?_, fun _ _ mapped => (kept.owned mapped).1.2⟩
  rcases kept.conserved.covered frame with free | held | mapped
  · exact .inr free.2
  · rcases held with outside | used | table
    · exact absurd bound (Nat.not_lt.mpr outside)
    · cases isFree.symm.trans used
    · exact absurd table noTable
  · exact .inl mapped

theorem framesKept_start {mm : Mm} (guarded : mm.Guarded) (accounted : mm.pmm.Accounted)
    (noTables : ∀ index < 768, ¬ mm.HasTable index) : FramesKept mm.pmm mm := by
  have unmapped : mm.userFrame = fun _ => none := by
    funext page
    refine if_neg fun mapped => mapped.2 ?_
    rw [entry, if_neg (noTables _ (pdIndex_user (by omega)))]
    rfl
  refine ⟨guarded, accounted, ?_, fun frame => ?_, fun frame isFree => ?_, fun page frame mapped => ?_,
    fun page other frame mapped => ?_⟩
  · by_cases some : 0 < mm.pmm.totalFrames
    · exact .inr (.inl (accounted.zeroUsed some))
    · exact .inl (Nat.le_of_not_lt some)
  · by_cases bound : frame < mm.pmm.totalFrames
    · cases used : mm.pmm.bitmapTest frame with
      | true => exact .inr (.inl (.inr (.inl used)))
      | false => exact .inl ⟨bound, used⟩
    · exact .inr (.inl (.inl (Nat.le_of_not_lt bound)))
  · rintro (outside | used | ⟨index, bound, table, same⟩)
    · exact absurd isFree.1 (Nat.not_lt.mpr outside)
    · cases isFree.2.symm.trans used
    · cases isFree.2.symm.trans (same ▸ (guarded.reserved index bound table).2)
  · cases (congrFun unmapped page).symm.trans mapped
  · cases (congrFun unmapped page).symm.trans mapped

theorem user_frames_conserved {mm : Mm} (guarded : mm.Guarded) (accounted : mm.pmm.Accounted)
    (noTables : ∀ index < 768, ¬ mm.HasTable index) {s : UserSystem}
    (reached : Reachable (· = UserSystem.start mm) (Restricted FrameCareful UserStep) s) :
    FramesConserved mm.pmm s.memory.mm := by
  have kept : SystemKept mm.pmm s := by
    refine reached.invariant (SystemKept mm.pmm) ?_ ?_
    · rintro s rfl
      exact ⟨⟨framesKept_start guarded accounted noTables, fun _ _ => rfl⟩, fun _ => rfl⟩
    · rintro s call after kept ⟨careful, rfl⟩
      exact kept.step careful
  exact kept.memory.frames.framesConserved

def smallSystem : UserSystem := .start smallMemory.mm

theorem smallMemory_noTables : ∀ index < 768, ¬ smallMemory.mm.HasTable index := by
  intro index low linked
  rcases bootMm_slots _ (by decide) (by decide) linked with ⟨rfl, _⟩ | ⟨rfl, _⟩
  · exact absurd low (by decide)
  · exact absurd low (by decide)

theorem smallMemory_guarded : smallMemory.mm.Guarded :=
  bootMm_guarded (by decide) (by decide) (by decide) (by decide) (by decide) (by decide)

theorem user_frames_conserved_small :
    let s := userStep (userStep (userStep smallSystem (.mmap 0x40000000 4096 3 0x30))
      (.pageFault 0xBFFFE000 4)) (.munmap 0x40000000 4096)
    FramesConserved smallMemory.mm.pmm s.memory.mm := by
  refine user_frames_conserved smallMemory_guarded (pmmInit_accounted _ _) smallMemory_noTables
    (.next (.next (.next (.start rfl) ⟨?_, rfl⟩) ⟨?_, rfl⟩) ⟨?_, rfl⟩)
  · intro _ _ _
    decide
  · intro _ _
    decide
  · intro _ _ pid index found
    have area : vmaFind (userStep (userStep smallSystem (.mmap 0x40000000 4096 3 0x30))
      (.pageFault 0xBFFFE000 4)).current 0x40000000 = some (1, 0) := rfl
    cases area.symm.trans found
    decide

section Remapping

variable {start : Pmm} {m after : Mm} {page frame : Nat}

theorem Mm.SameFrames.framesConserved (same : SameFrames m after)
    (conserved : FramesConserved start after) : FramesConserved start m := by
  obtain ⟨covered, exclusive⟩ := conserved
  simp only [same.pmm, same.isTable, same.userFrame] at covered exclusive
  exact ⟨covered, exclusive⟩

/-- A frame given to a page that has one takes its place, and the old one is nowhere. -/
theorem Mm.Gives.lost {given : Nat} (gives : Gives m after page given) (kept : FramesKept start m)
    (mapped : m.userFrame (page / 4096) = some frame) (linked : m.HasTable (pdIndex page)) :
    ¬ FramesConserved start after := by
  obtain ⟨_, takes, tables⟩ := gives.taken.resolve_right fun new => new.1 linked
  obtain ⟨⟨bound, used⟩, startFree, noTable⟩ := kept.owned mapped
  have others : ∀ other, other ≠ page / 4096 →
      (after.ledger start).maps other = (m.ledger start).maps other := fun other apart =>
    (congrFun gives.maps other).trans (Function.update_of_ne apart _ _)
  have replaced : (after.ledger start).maps (page / 4096) ≠ some frame := by
    intro isFrame
    have own := (congrFun gives.maps (page / 4096)).symm.trans isFrame
    rw [Function.update_self, Option.some.injEq] at own
    cases takes.isFree.symm.trans (own ▸ used)
  have lost := kept.conserved.lost mapped others replaced
  rintro ⟨covered, _⟩
  rcases covered frame (takes.total.symm ▸ bound) startFree ((tables frame).not.mpr noTable) with
    ⟨other, maps⟩ | isFree
  · exact lost other maps
  · cases ((takes.free frame).mp isFree).1.symm.trans used

/-- The round of `mmap` on a page that is mapped loses the page's frame. -/
theorem Mm.FramesKept.remapped_lost (kept : FramesKept start m) (user : page < 0xC0000000)
    (aligned : page % 4096 = 0) (mapped : m.userFrame (page / 4096) = some frame)
    (success : (pmmAllocFrame m.pmm).1 ≠ 0) (flags : Nat) :
    ¬ FramesConserved start (ZurichOS.memsetPage (vmmMapPage
      { m with pmm := (pmmAllocFrame m.pmm).2 } page (pmmAllocFrame m.pmm).1 flags) page) := by
  have linked : m.HasTable (pdIndex page) := by
    have present := (userFrame_some mapped).2.1
    rw [entry_page] at present
    exact hasTable_of_mapped present
  have gives := kept.gives success user (.inl linked) flags
  have placed := congrFun gives.maps (page / 4096)
  rw [Function.update_self] at placed
  obtain ⟨_, present, own⟩ := userFrame_some placed
  rw [entry_page] at present own
  obtain ⟨_, takes, tables⟩ := gives.taken.resolve_right fun new => new.1 linked
  have same := @Guarded.memset_same _ gives.guarded page (fun _ => by
    rw [own, freshTable_iff, tables]
    rintro ⟨index, bound, table, isFrame⟩
    cases takes.isFree.symm.trans (isFrame ▸ (kept.guarded.reserved index bound table).2))
    fun unaligned => absurd aligned unaligned
  exact fun conserved => gives.lost kept mapped linked (same.framesConserved conserved)

end Remapping

theorem mmap_twice_loses_frame : ∃ s,
    Reachable (· = smallSystem) UserStep s ∧ ¬ FramesConserved smallMemory.mm.pmm s.memory.mm := by
  have start := framesKept_start smallMemory_guarded (pmmInit_accounted _ _) smallMemory_noTables
  have kept : SystemKept smallMemory.mm.pmm
      (userStep smallSystem (.mmap 0x40000000 4096 3 0x30)) :=
    SystemKept.step ⟨⟨start, fun _ _ => rfl⟩, fun _ => rfl⟩ fun _ _ _ => by decide
  have mapped : ((userStep smallSystem (.mmap 0x40000000 4096 3 0x30)).memory.mm.userFrame
      0x40000).isSome = true :=
    show (userStep smallSystem (.mmap 0x40000000 4096 3 0x30)).memory.mm.room.mapped 0x40000 = true
      by decide
  obtain ⟨frame, mapped⟩ := Option.isSome_iff_exists.mp mapped
  refine ⟨userStep (userStep smallSystem (.mmap 0x40000000 4096 3 0x30))
    (.mmap 0x40000000 4096 3 0x30), .next (.next (.start rfl) rfl) rfl, ?_⟩
  exact kept.memory.frames.remapped_lost (show 0x40000000 < 0xC0000000 by decide) (by decide)
    mapped (by decide) (pageUser ||| pagePresent ||| pageWrite)

end ZurichOS
