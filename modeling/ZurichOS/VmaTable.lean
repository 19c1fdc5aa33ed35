import ZurichOS.IntervalTable
import ZurichOS.UserMemory

set_option linter.all false

/-!
The virtual memory areas of a process: which calls keep them apart and within the
window `mmap` hands out.
-/

namespace ZurichOS

open Words Transitions IntervalTable

def UserMemory.areas (s : UserMemory) (pid index : Nat) : Option (Nat × Nat) :=
  if index < maxVmasPerProc ∧ (s.processVmas pid index).inUse = true then
    some ((s.processVmas pid index).start, (s.processVmas pid index).stop)
  else none

def VmaSound (pid : Nat) (s : UserMemory) : Prop :=
  Sound userMmapStart userMmapEnd (s.areas pid)

/-- The calls of one process on its areas, with words for addresses and lengths. -/
def IsVmaCall : MemoryCall → Prop
  | .mmap addr length _ _ | .munmap addr length | .mprotect addr length _ =>
      addr < 4294967296 ∧ length < 4294967296
  | _ => False

abbrev VmaCall := { call : MemoryCall // IsVmaCall call }

def vmaStep (s : UserMemory) (call : VmaCall) : UserMemory := s.call call.val

/-- The range is not empty, lies in the window without passing 2³² and meets no area. -/
def RangeFree (s : UserMemory) (pid vaddr length : Nat) : Prop :=
  0 < length ∧ userMmapStart ≤ vaddr ∧ vaddr + length ≤ userMmapEnd ∧
    ∀ index < maxVmasPerProc, (s.processVmas pid index).inUse = true →
      vaddr + length ≤ (s.processVmas pid index).start ∨ (s.processVmas pid index).stop ≤ vaddr

/-- `munmap` moves the start of the area `index` to the end of the range. -/
def TrimsStart (s : UserMemory) (pid index addr length : Nat) : Prop :=
  addr &&& 0xFFF = 0 ∧ length ≠ 0 ∧ vmaFind s addr = some (pid, index) ∧
    addr = (s.processVmas pid index).start ∧
    u32 (addr + roundLength length) ≠ (s.processVmas pid index).stop

/-- An anonymous `mmap` that passes the checks asks for a range that is free, and a `munmap`
from an area's start leaves an area in the window that meets no other. -/
def VmaCareful (pid : Nat) (s : UserMemory) (call : VmaCall) : Prop :=
  match call.val with
  | .mmap addr length _ flags => flags &&& mapAnonymous ≠ 0 → mmapAccepted s addr length flags →
      (∃ index < maxVmasPerProc, (s.processVmas pid index).inUse = false) →
        RangeFree s pid (mmapAddress s addr flags) (roundLength length)
  | .munmap addr length => ∀ index, TrimsStart s pid index addr length →
      Fits userMmapStart userMmapEnd (s.areas pid) index (u32 (addr + roundLength length))
        (s.processVmas pid index).stop
  | _ => True

def FramesSuffice (s : UserMemory) (call : VmaCall) : Prop :=
  match call.val with
  | .mmap addr length _ flags => mmapAccepted s addr length flags →
      (mmapPages (mmapAddress s addr flags) (pageLoop (mmapAddress s addr flags)
        (u32 (mmapAddress s addr flags + roundLength length))) s.mm).1 = true
  | _ => True

section Areas

variable {s : UserMemory} {pid index : Nat}

theorem areas_setVma (s : UserMemory) (pid : Nat) (inside : index < maxVmasPerProc) (vma : Vma) :
    (s.setVma pid index vma).areas pid = Function.update (s.areas pid) index
      (if vma.inUse = true then some (vma.start, vma.stop) else none) := by
  funext other
  by_cases own : other = index
  · subst own
    simp [UserMemory.areas, UserMemory.setVma, inside]
  · simp [UserMemory.areas, UserMemory.setVma, own]

theorem areas_some {start stop : Nat} : s.areas pid index = some (start, stop) ↔
    index < maxVmasPerProc ∧ (s.processVmas pid index).inUse = true ∧
      (s.processVmas pid index).start = start ∧ (s.processVmas pid index).stop = stop := by
  simp [UserMemory.areas, and_assoc]

theorem areas_none (free : (s.processVmas pid index).inUse = false) :
    s.areas pid index = none := by
  simp [UserMemory.areas, free]

theorem getVmaTable_eq (current : s.pid = some pid) (bound : pid < 64) :
    getVmaTable s = some pid := by
  simp [getVmaTable, current, bound]

theorem vmaFind_area {addr owner : Nat} (current : s.pid = some pid) (bound : pid < 64)
    (found : vmaFind s addr = some (owner, index)) :
    owner = pid ∧ index < maxVmasPerProc ∧ (s.processVmas pid index).inUse = true ∧
      (s.processVmas pid index).start ≤ addr ∧ addr < (s.processVmas pid index).stop := by
  simp only [vmaFind, getVmaTable_eq current bound, Option.bind_eq_bind, Option.bind_some,
    Option.bind_eq_some_iff, Option.pure_def, Option.some.injEq, Prod.mk.injEq] at found
  obtain ⟨slot, hit, rfl, rfl⟩ := found
  have holds := List.find?_some hit
  simp only [Bool.and_eq_true, decide_eq_true_eq] at holds
  exact ⟨rfl, List.mem_range.mp (List.mem_of_find?_eq_some hit), holds.1.1, holds.1.2, holds.2⟩

theorem vmaCreate_slot (current : s.pid = some pid) (bound : pid < 64)
    (start stop prot flags : Nat) :
    (vmaCreate s start stop prot flags = none ∧
      ∀ index < maxVmasPerProc, (s.processVmas pid index).inUse = true) ∨
    ∃ index < maxVmasPerProc, (s.processVmas pid index).inUse = false ∧
      ∃ vma, vma.inUse = true ∧ vma.start = start ∧ vma.stop = stop ∧
        vmaCreate s start stop prot flags = some (pid, index, s.setVma pid index vma) := by
  simp only [vmaCreate, getVmaTable_eq current bound, Option.bind_eq_bind, Option.bind_some]
  cases found : (List.range maxVmasPerProc).find? fun i => !(s.processVmas pid i).inUse with
  | none =>
      refine .inl ⟨rfl, fun index inside => ?_⟩
      have full := List.find?_eq_none.mp found index (List.mem_range.mpr inside)
      simpa using full
  | some index =>
      have free := List.find?_some found
      refine .inr ⟨index, List.mem_range.mp (List.mem_of_find?_eq_some found), by simpa using free,
        _, ?_, ?_, ?_, rfl⟩
      · rfl
      · rfl
      · rfl

end Areas

section Calls

variable {s : UserMemory} {pid : Nat}

structure SameOwner (s after : UserMemory) : Prop where
  pid : after.pid = s.pid
  next : s.nextMmapAddr < 4294967296 → after.nextMmapAddr < 4294967296

theorem areas_mm (s : UserMemory) (mm : Mm) (pid : Nat) :
    ({ s with mm } : UserMemory).areas pid = s.areas pid := rfl

theorem SameOwner.mm {after : UserMemory} (same : SameOwner s after) (mm : Mm) :
    SameOwner s { after with mm } := ⟨same.pid, same.next⟩

theorem SameOwner.setVma {after : UserMemory} (same : SameOwner s after) (pid index : Nat)
    (vma : Vma) : SameOwner s (after.setVma pid index vma) := ⟨same.pid, same.next⟩

/-- The areas after `mmap`: one more, if the call is accepted and gets a slot and its frames. -/
theorem sysMmap_areas (current : s.pid = some pid) (bound : pid < 64)
    (addr length prot flags : Nat) :
    let after := (sysMmap s addr length prot flags).2
    let vaddr := mmapAddress s addr flags
    let stop := u32 (vaddr + roundLength length)
    SameOwner s after ∧
      ((after.areas pid = s.areas pid ∧
          ¬ (flags &&& mapAnonymous ≠ 0 ∧ mmapAccepted s addr length flags ∧
            (∃ index < maxVmasPerProc, (s.processVmas pid index).inUse = false) ∧
            (mmapPages vaddr (pageLoop vaddr stop) s.mm).1 = true)) ∨
        (flags &&& mapAnonymous ≠ 0 ∧ mmapAccepted s addr length flags ∧
          (mmapPages vaddr (pageLoop vaddr stop) s.mm).1 = true ∧
          ∃ index < maxVmasPerProc, (s.processVmas pid index).inUse = false ∧
            after.areas pid = Function.update (s.areas pid) index (some (vaddr, stop)))) := by
  dsimp only
  obtain ⟨sameMm, sameVmas, samePid⟩ := bump_same s length flags
  have owner : SameOwner s (s.bump length flags) := by
    refine ⟨samePid, fun word => ?_⟩
    unfold UserMemory.bump
    split
    · exact word
    · exact u32_lt _
  have sameAreas : (s.bump length flags).areas pid = s.areas pid := by
    funext index
    simp only [UserMemory.areas, sameVmas]
  rcases sysMmap_cases s addr length prot flags with ⟨refused, after⟩ | ⟨accepted, made⟩
  · rw [after]
    exact ⟨⟨rfl, id⟩, .inl ⟨rfl, fun adds => refused adds.2.1⟩⟩
  have slots := vmaCreate_slot (samePid.trans current) bound (mmapAddress s addr flags)
    (u32 (mmapAddress s addr flags + roundLength length)) prot flags
  rcases made with ⟨none, after⟩ | ⟨holder, index, made, created, mapped⟩
  · rw [after]
    refine ⟨owner, .inl ⟨sameAreas, ?_⟩⟩
    rintro ⟨_, _, ⟨index, inside, free⟩, _⟩
    rcases slots with ⟨_, taken⟩ | ⟨_, _, _, _, _, _, _, created⟩
    · rw [← sameVmas, taken index inside] at free
      cases free
    · cases none.symm.trans created
  rcases slots with ⟨full, _⟩ | ⟨slot, inside, free, vma, inUse, isStart, isStop, placed⟩
  · cases full.symm.trans created
  cases placed.symm.trans created
  rw [sameVmas] at free
  have placed := areas_setVma (s.bump length flags) pid inside vma
  rw [if_pos inUse, isStart, isStop, sameAreas] at placed
  have destroyed : ∀ mm, (vmaDestroy { (s.bump length flags).setVma pid index vma with mm } pid
      index).areas pid = s.areas pid := by
    intro mm
    rw [vmaDestroy, areas_setVma _ _ inside, if_neg (by simp), areas_mm, placed, Function.update_idem,
      ← areas_none free, Function.update_eq_self]
  rcases mapped with ⟨anonymous, after⟩ | ⟨anonymous, after⟩
  · rw [after]
    exact ⟨(owner.setVma pid index vma).setVma pid index _,
      .inl ⟨destroyed _, fun adds => adds.1 anonymous⟩⟩
  · have mm : ((s.bump length flags).setVma pid index vma).mm = s.mm := sameMm
    rw [after, UserMemory.mapArea, mm]
    split
    · rename_i enough
      exact ⟨(owner.setVma pid index vma).mm _, .inr ⟨anonymous, accepted, enough, index, inside,
        free, (areas_mm _ _ pid).trans placed⟩⟩
    · rename_i short
      exact ⟨((owner.setVma pid index vma).mm _).setVma pid index _,
        .inl ⟨destroyed _, fun adds => short adds.2.2.2⟩⟩

/-- The areas after `munmap`: an area is removed, or cut at one of its ends, or nothing. -/
theorem sysMunmap_areas (current : s.pid = some pid) (bound : pid < 64) (addr length : Nat) :
    let after := (sysMunmap s addr length).2
    let stop := u32 (addr + roundLength length)
    SameOwner s after ∧
      ((after.areas pid = s.areas pid ∧ ∀ index, ¬ TrimsStart s pid index addr length) ∨
        ∃ index, vmaFind s addr = some (pid, index) ∧
          ((after.areas pid = Function.update (s.areas pid) index none ∧
              ¬ TrimsStart s pid index addr length) ∨
            (after.areas pid = Function.update (s.areas pid) index
                (some (stop, (s.processVmas pid index).stop)) ∧
              TrimsStart s pid index addr length) ∨
            (after.areas pid = Function.update (s.areas pid) index
                (some ((s.processVmas pid index).start, addr)) ∧
              addr ≠ (s.processVmas pid index).start))) := by
  dsimp only
  have same : SameOwner s s := ⟨rfl, id⟩
  by_cases unaligned : addr &&& 0xFFF ≠ 0
  · rw [sysMunmap, if_pos unaligned]
    exact ⟨same, .inl ⟨rfl, fun _ trims => unaligned trims.1⟩⟩
  by_cases zero : length = 0
  · rw [sysMunmap, if_neg unaligned, if_pos zero]
    exact ⟨same, .inl ⟨rfl, fun _ trims => trims.2.1 zero⟩⟩
  rw [sysMunmap, if_neg unaligned, if_neg zero]
  dsimp only
  cases found : vmaFind s addr with
  | none => exact ⟨same, .inl ⟨rfl, fun _ trims => by cases found.symm.trans trims.2.2.1⟩⟩
  | some hit =>
      obtain ⟨owner, index⟩ := hit
      obtain ⟨rfl, inside, inUse, _, _⟩ := vmaFind_area current bound found
      dsimp only
      generalize stopEq : u32 (addr + roundLength length) = stop
      generalize (pageLoop addr stop).foldl _ s.mm = mm
      have areas := areas_mm s mm owner
      split
      · rename_i whole
        refine ⟨(same.mm mm).setVma owner index _, .inr ⟨index, rfl, .inl ⟨?_, fun trims => ?_⟩⟩⟩
        · rw [vmaDestroy, areas_setVma _ _ inside, if_neg (by simp), areas]
        · exact trims.2.2.2.2 (stopEq.trans whole.2)
      split
      · rename_i whole atStart
        have trims : TrimsStart s owner index addr length :=
          ⟨not_not.mp unaligned, zero, found, atStart, fun isStop =>
            whole ⟨atStart, stopEq.symm.trans isStop⟩⟩
        refine ⟨(same.mm mm).setVma owner index _, .inr ⟨index, rfl, .inr (.inl ⟨?_, trims⟩)⟩⟩
        rw [areas_setVma _ _ inside, if_pos inUse, areas]
      split
      · rename_i later isStop
        refine ⟨(same.mm mm).setVma owner index _, .inr ⟨index, rfl, .inr (.inr ⟨?_, later⟩)⟩⟩
        rw [areas_setVma _ _ inside, if_pos inUse, areas]
      · rename_i _ later _
        refine ⟨same.mm mm, .inl ⟨areas, fun other trims => ?_⟩⟩
        have sameIndex : index = other := by
          have hit := found.symm.trans trims.2.2.1
          simp only [Option.some.injEq, Prod.mk.injEq, true_and] at hit
          exact hit
        exact later (sameIndex ▸ trims.2.2.2.1)

theorem sysMprotect_areas (current : s.pid = some pid) (bound : pid < 64)
    (addr length prot : Nat) :
    SameOwner s (sysMprotect s addr length prot).2 ∧
      (sysMprotect s addr length prot).2.areas pid = s.areas pid := by
  have same : SameOwner s s := ⟨rfl, id⟩
  unfold sysMprotect
  split
  · exact ⟨same, rfl⟩
  split
  · exact ⟨same, rfl⟩
  dsimp only
  split
  · exact ⟨same, rfl⟩
  rename_i owner index found
  obtain ⟨rfl, inside, inUse, _, _⟩ := vmaFind_area current bound found
  refine ⟨(same.setVma owner index _).mm _, (areas_mm _ _ owner).trans ?_⟩
  have area : s.areas owner index =
      some ((s.processVmas owner index).start, (s.processVmas owner index).stop) :=
    areas_some.mpr ⟨inside, inUse, rfl, rfl⟩
  rw [areas_setVma _ _ inside, if_pos inUse, ← area, Function.update_eq_self]

end Calls

section Runs

variable {s : UserMemory} {pid : Nat}

/-- The process runs, its areas are sound and the bump pointer is a word. -/
structure VmaKept (pid : Nat) (s : UserMemory) : Prop where
  current : s.pid = some pid
  next : s.nextMmapAddr < 4294967296
  sound : VmaSound pid s

theorem fits_iff_rangeFree {index vaddr length : Nat} (word : vaddr < 4294967296)
    (short : length < 4294967296) (below : u32 (vaddr + length) ≤ userMmapEnd)
    (free : (s.processVmas pid index).inUse = false) :
    Fits userMmapStart userMmapEnd (s.areas pid) index vaddr (u32 (vaddr + length)) ↔
      RangeFree s pid vaddr length := by
  have same : vaddr + length < 4294967296 → u32 (vaddr + length) = vaddr + length := u32_eq_of_lt
  have wrapped : 4294967296 ≤ vaddr + length → u32 (vaddr + length) < vaddr := by
    intro over32
    unfold u32
    omega
  have high : userMmapEnd < 4294967296 := by decide
  constructor
  · rintro ⟨⟨low, ordered, _⟩, apart⟩
    have exact : u32 (vaddr + length) = vaddr + length :=
      same (Nat.lt_of_not_le fun over32 => by have := wrapped over32; omega)
    rw [exact] at ordered below apart
    refine ⟨by omega, low, below, fun other inside inUse => ?_⟩
    refine apart other _ _ (areas_some.mpr ⟨inside, inUse, rfl, rfl⟩) fun own => ?_
    rw [own, free] at inUse
    cases inUse
  · rintro ⟨positive, low, bounded, apart⟩
    rw [same (by omega)]
    refine ⟨⟨low, by omega, bounded⟩, fun other first last found _ => ?_⟩
    obtain ⟨inside, inUse, rfl, rfl⟩ := areas_some.mp found
    exact apart other inside inUse

theorem roundLength_lt (length : Nat) : roundLength length < 4294967296 := by
  rw [roundLength, and_pageMask (u32_lt _)]
  have := u32_lt (length + 0xFFF)
  omega

theorem vmaStep_owner (kept : VmaKept pid s) (bound : pid < 64) (call : VmaCall) :
    SameOwner s (vmaStep s call) := by
  obtain ⟨call, isCall⟩ := call
  cases call with
  | mmap addr length prot flags => exact (sysMmap_areas kept.current bound ..).1
  | munmap addr length => exact (sysMunmap_areas kept.current bound ..).1
  | mprotect addr length prot => exact (sysMprotect_areas kept.current bound ..).1
  | shmget | shmat | shmdt | setCurrent => exact isCall.elim

theorem mmap_sound_iff (kept : VmaKept pid s) (bound : pid < 64) {addr length prot flags : Nat}
    (isCall : IsVmaCall (.mmap addr length prot flags)) :
    VmaSound pid (vmaStep s ⟨.mmap addr length prot flags, isCall⟩) ↔
      (FramesSuffice s ⟨.mmap addr length prot flags, isCall⟩ →
        VmaCareful pid s ⟨.mmap addr length prot flags, isCall⟩) := by
  have word : mmapAddress s addr flags < 4294967296 := by
    unfold mmapAddress
    split
    · exact isCall.1
    · exact kept.next
  have fits : ∀ index, (s.processVmas pid index).inUse = false → mmapAccepted s addr length flags →
      (Fits userMmapStart userMmapEnd (s.areas pid) index (mmapAddress s addr flags)
        (u32 (mmapAddress s addr flags + roundLength length)) ↔
        RangeFree s pid (mmapAddress s addr flags) (roundLength length)) :=
    fun index free accepted => fits_iff_rangeFree word (roundLength_lt length)
      (Nat.le_of_not_lt fun beyond => accepted.2 (.inr beyond)) free
  rcases (sysMmap_areas kept.current bound addr length prot flags).2 with ⟨same, without⟩ | placed
  · have sound : VmaSound pid (vmaStep s ⟨.mmap addr length prot flags, isCall⟩) := by
      show Sound _ _ ((sysMmap s addr length prot flags).2.areas pid)
      rw [same]
      exact kept.sound
    refine iff_of_true sound fun suffice anonymous accepted slot => ?_
    exact absurd ⟨anonymous, accepted, slot, suffice accepted⟩ without
  · obtain ⟨anonymous, accepted, enough, index, inside, free, placed⟩ := placed
    show Sound _ _ ((sysMmap s addr length prot flags).2.areas pid) ↔ _
    rw [placed, kept.sound.place_iff, fits index free accepted]
    constructor
    · exact fun free _ _ _ _ => free
    · exact fun careful => careful (fun _ => enough) anonymous accepted ⟨index, inside, free⟩

theorem munmap_sound_iff (kept : VmaKept pid s) (bound : pid < 64) {addr length : Nat}
    (isCall : IsVmaCall (.munmap addr length)) :
    VmaSound pid (vmaStep s ⟨.munmap addr length, isCall⟩) ↔
      VmaCareful pid s ⟨.munmap addr length, isCall⟩ := by
  show Sound _ _ ((sysMunmap s addr length).2.areas pid) ↔ _
  rcases (sysMunmap_areas kept.current bound addr length).2 with ⟨same, without⟩ | cut
  · rw [same]
    exact iff_of_true kept.sound fun index trims => absurd trims (without index)
  obtain ⟨index, found, cut⟩ := cut
  obtain ⟨_, inside, inUse, low, high⟩ := vmaFind_area kept.current bound found
  have unique : ∀ other, TrimsStart s pid other addr length → other = index := by
    intro other trims
    have hit := trims.2.2.1.symm.trans found
    simp only [Option.some.injEq, Prod.mk.injEq, true_and] at hit
    exact hit
  have area := areas_some.mpr ⟨inside, inUse, rfl, rfl⟩
  have own := kept.sound.inside index _ _ area
  rcases cut with ⟨removed, keeps⟩ | ⟨trimmed, trims⟩ | ⟨shortened, later⟩
  · rw [removed]
    refine iff_of_true (kept.sound.clear index) fun other trims => ?_
    exact absurd (unique other trims ▸ trims) keeps
  · rw [trimmed, kept.sound.place_iff]
    constructor
    · intro fits other trims
      rw [unique other trims]
      exact fits
    · exact fun careful => careful index trims
  · rw [shortened, kept.sound.place_iff]
    refine iff_of_true ⟨⟨own.1, by omega, by omega⟩, fun other first last found apart => ?_⟩ ?_
    · have disjoint := kept.sound.apart index _ _ other first last area found (Ne.symm apart)
      omega
    · intro other trims
      exact absurd (unique other trims ▸ trims.2.2.2.1) later

theorem vmaStep_sound_iff (kept : VmaKept pid s) (bound : pid < 64) (call : VmaCall) :
    VmaSound pid (vmaStep s call) ↔ (FramesSuffice s call → VmaCareful pid s call) := by
  obtain ⟨call, isCall⟩ := call
  cases call with
  | mmap addr length prot flags => exact mmap_sound_iff kept bound isCall
  | munmap addr length => simpa [FramesSuffice] using munmap_sound_iff kept bound isCall
  | mprotect addr length prot =>
      refine iff_of_true ?_ fun _ => trivial
      show Sound _ _ ((sysMprotect s addr length prot).2.areas pid)
      rw [(sysMprotect_areas kept.current bound addr length prot).2]
      exact kept.sound
  | shmget | shmat | shmdt | setCurrent => exact isCall.elim

theorem vma_run_iff (kept : VmaKept pid s) (bound : pid < 64) (calls : List VmaCall) :
    Along vmaStep (fun s call => VmaSound pid (vmaStep s call)) s calls ↔
      Along vmaStep (fun s call => FramesSuffice s call → VmaCareful pid s call) s calls := by
  refine along_congr (VmaKept pid) ?_ (fun s call kept => vmaStep_sound_iff kept bound call) kept
    calls
  intro s call kept met
  have owner := vmaStep_owner kept bound call
  exact ⟨owner.pid.trans kept.current, owner.next kept.next,
    (vmaStep_sound_iff kept bound call).mpr met⟩

/-- Where all calls are careful, the areas are sound after each of them; and where no `mmap`
runs out of frames, only then. -/
theorem vma_invariant (kept : VmaKept pid s) (bound : pid < 64) (calls : List VmaCall) :
    (Along vmaStep (VmaCareful pid) s calls →
      Along vmaStep (fun s call => VmaSound pid (vmaStep s call)) s calls) ∧
    (Along vmaStep FramesSuffice s calls →
      Along vmaStep (fun s call => VmaSound pid (vmaStep s call)) s calls →
        Along vmaStep (VmaCareful pid) s calls) := by
  constructor
  · intro careful
    refine (vma_run_iff kept bound calls).mpr (Along.mono ?_ careful)
    exact fun _ _ careful _ => careful
  · intro suffice sound
    exact Along.mp ((vma_run_iff kept bound calls).mp sound) suffice

theorem smallMemory_kept : VmaKept 1 smallMemory := by
  refine ⟨rfl, by decide, ?_⟩
  have none : smallMemory.areas 1 = fun _ => none := funext fun _ => areas_none rfl
  rw [VmaSound, none]
  exact Sound.empty

theorem vma_invariant_small :
    Along vmaStep (fun s call => VmaSound 1 (vmaStep s call)) smallMemory
      [⟨.mmap 0 4096 3 0x20, ⟨by decide, by decide⟩⟩] := by
  refine (vma_invariant smallMemory_kept (by decide) _).1 ⟨?_, trivial⟩
  intro _ _ _
  refine ⟨by decide, by decide, by decide, ?_⟩
  intro index _ inUse
  cases inUse

/-- A process maps a page and then, with `MAP_FIXED`, the same page again. -/
theorem fixed_mmap_overlaps :
    ¬ ∀ calls, Along vmaStep (fun s call => VmaSound 1 (vmaStep s call)) smallMemory calls := by
  intro all
  have sound := (all [⟨.mmap 0 4096 3 0x20, ⟨by decide, by decide⟩⟩,
    ⟨.mmap 0x40000000 4096 3 0x30, ⟨by decide, by decide⟩⟩]).2.1
  have apart := sound.apart 0 0x40000000 0x40001000 1 0x40000000 0x40001000 (by decide) (by decide)
    (by decide)
  exact absurd apart (by decide)

end Runs

end ZurichOS
