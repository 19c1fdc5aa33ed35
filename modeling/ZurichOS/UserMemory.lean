import ZurichOS.Pmm
import ZurichOS.Transitions
import ZurichOS.UserMemoryCore
import ZurichOS.Vmm

set_option linter.all false

/-!
Which calls leave the kernel half of the address space alone.  Every edit of a user
page keeps the kernel's directory slots and tables as long as the frames of page
tables stay reserved in the allocator; the loops of the system calls are sequences of
such edits.
-/

namespace ZurichOS

open Words Transitions

namespace Mm

/-- The frames of the directory and the page tables are reserved in the allocator. -/
structure Guarded (m : Mm) : Prop extends m.TablesSound where
  reserved : ∀ index < 1024, m.HasTable index →
    frameOf (m.pde index) ≠ 0 ∧ m.pmm.bitmapTest (frameOf (m.pde index)) = true
  memory : m.pmm.totalFrames ≤ 1048576

/-- A frame that is no page table and cannot become one. -/
def Harmless (m : Mm) (frame : Nat) : Prop :=
  m.FreshTable frame ∧ m.pmm.bitmapTest frame = true

structure KernelKept (m after : Mm) : Prop where
  cr3 : after.cr3 = m.cr3
  directory : ∀ index, 768 ≤ index → index < 1024 → after.pde index = m.pde index
  tables : ∀ index, 768 ≤ index → index < recursivePdIndex → m.HasTable index →
    ∀ slot < 1024, after.pte index slot = m.pte index slot

theorem KernelKept.refl (m : Mm) : KernelKept m m :=
  ⟨rfl, fun _ _ _ => rfl, fun _ _ _ _ _ _ => rfl⟩

theorem KernelKept.trans {m middle after : Mm} (first : KernelKept m middle)
    (second : KernelKept middle after) : KernelKept m after := by
  refine ⟨second.cr3.trans first.cr3, ?_, ?_⟩
  · intro index low high
    rw [second.directory index low high, first.directory index low high]
  · intro index low high table slot bound
    have kept : middle.HasTable index := by
      rwa [HasTable, first.directory index low (Nat.lt_trans high (by decide))]
    rw [second.tables index low high kept slot bound, first.tables index low high table slot bound]

/-- What every edit made for a user page comes to. -/
structure Confined (m after : Mm) : Prop where
  guarded : after.Guarded
  kernel : KernelKept m after

theorem Confined.refl {m : Mm} (guarded : m.Guarded) : Confined m m :=
  ⟨guarded, KernelKept.refl m⟩

theorem Confined.trans {m middle after : Mm} (first : Confined m middle)
    (second : Confined middle after) : Confined m after :=
  ⟨second.guarded, first.kernel.trans second.kernel⟩

variable {m : Mm}

theorem pdIndex_user {virt : Nat} (user : virt < 0xC0000000) : pdIndex virt < 768 := by
  rw [pdIndex_eq]
  omega

theorem user_ne_recursive {virt : Nat} (user : virt < 0xC0000000) :
    pdIndex virt ≠ recursivePdIndex := by
  exact Nat.ne_of_lt (Nat.lt_trans (pdIndex_user user) (by decide))

theorem SetsEntry.kernelKept {after : Mm} {virt value : Nat} (set : SetsEntry m after virt value)
    (user : virt < 0xC0000000) : KernelKept m after := by
  have low := pdIndex_user user
  refine ⟨set.cr3, fun index lower _ => set.directory index (by omega), ?_⟩
  intro index lower upper table slot _
  exact set.tables index (Nat.lt_trans upper (by decide)) (by omega) (by omega) table slot

/-! Changes of the allocator alone. -/

theorem Guarded.withPmm (guarded : m.Guarded) {pmm : Pmm}
    (same : pmm.totalFrames = m.pmm.totalFrames)
    (reserved : ∀ index < 1024, m.HasTable index →
      pmm.bitmapTest (frameOf (m.pde index)) = true) : Confined m { m with pmm } :=
  ⟨⟨guarded.toTablesSound.congr rfl fun _ => rfl,
      fun index bound table =>
        ⟨(guarded.reserved index bound table).1, reserved index bound table⟩,
      same ▸ guarded.memory⟩,
    ⟨rfl, fun _ _ _ => rfl, fun _ _ _ _ _ _ => rfl⟩⟩

theorem totalFrames_allocFrame (pmm : Pmm) :
    (pmmAllocFrame pmm).2.totalFrames = pmm.totalFrames := by
  rcases pmmAllocFrame_cases pmm with same | ⟨_, _, _, same⟩ <;> rw [same]
  rfl

theorem totalFrames_freeFrame (pmm : Pmm) (addr : Nat) :
    (pmmFreeFrame pmm addr).totalFrames = pmm.totalFrames := by
  rcases pmmFreeFrame_cases pmm addr with ⟨_, _, same⟩ | ⟨_, same⟩ <;> rw [same]
  rfl

theorem Guarded.allocFrame (guarded : m.Guarded) :
    Confined m { m with pmm := (pmmAllocFrame m.pmm).2 } :=
  guarded.withPmm (totalFrames_allocFrame m.pmm) fun index bound table =>
    allocFrame_keeps (guarded.reserved index bound table).2

theorem Guarded.freeFrame (guarded : m.Guarded) {addr : Nat}
    (fresh : m.FreshTable (addr / 4096)) :
    Confined m { m with pmm := pmmFreeFrame m.pmm addr } :=
  guarded.withPmm (totalFrames_freeFrame m.pmm addr) fun index bound table =>
    freeFrame_keeps (guarded.reserved index bound table).2 (Ne.symm (fresh index bound table))

theorem Guarded.allocFrame_success (guarded : m.Guarded) (success : (pmmAllocFrame m.pmm).1 ≠ 0) :
    m.pmm.bitmapTest ((pmmAllocFrame m.pmm).1 / 4096) = false ∧
      (pmmAllocFrame m.pmm).2.bitmapTest ((pmmAllocFrame m.pmm).1 / 4096) = true ∧
      m.FreshTable ((pmmAllocFrame m.pmm).1 / 4096) ∧ (pmmAllocFrame m.pmm).1 / 4096 ≠ 0 ∧
      (pmmAllocFrame m.pmm).1 / 4096 < 1048576 := by
  have small := guarded.memory
  rcases pmmAllocFrame_cases m.pmm with same | ⟨frame, bound, off, same⟩
  · exact absurd (by rw [same]) success
  · have address : (pmmAllocFrame m.pmm).1 = frame * 4096 := by
      rw [same]
      exact u32_eq_of_lt (by omega)
    have number : (pmmAllocFrame m.pmm).1 / 4096 = frame := by omega
    rw [number]
    refine ⟨off, ?_, ?_, by omega, by omega⟩
    · rw [same, Pmm.bitmapTest_bitmapSet]
      simp
    · intro index indexBound table taken
      have used := (guarded.reserved index indexBound table).2
      rw [taken, off] at used
      exact absurd used (by decide)

/-! Edits of one user page. -/

theorem SetsEntry.hasTable {after : Mm} {virt value : Nat} (set : SetsEntry m after virt value)
    {index : Nat} (table : after.HasTable index) :
    m.HasTable index ∧ frameOf (after.pde index) = frameOf (m.pde index) ∨
      index = pdIndex virt ∧ ¬ m.HasTable index ∧
        frameOf (after.pde index) = (pmmAllocFrame m.pmm).1 / 4096 := by
  by_cases own : index = pdIndex virt
  · subst own
    by_cases before : m.HasTable (pdIndex virt)
    · exact Or.inl ⟨before, set.kept before⟩
    · exact Or.inr ⟨rfl, before, set.created before⟩
  · have same := set.directory index own
    rw [HasTable, same] at table
    exact Or.inl ⟨table, by rw [same]⟩

theorem SetsEntry.guarded {after : Mm} {virt value : Nat} (set : SetsEntry m after virt value)
    (guarded : m.Guarded)
    (pmm : after.pmm = if m.HasTable (pdIndex virt) then m.pmm else (pmmAllocFrame m.pmm).2)
    (success : ¬ m.HasTable (pdIndex virt) → (pmmAllocFrame m.pmm).1 ≠ 0) :
    after.Guarded ∧ ∀ frame, m.Harmless frame → after.Harmless frame := by
  have used : ∀ frame, m.pmm.bitmapTest frame = true → after.pmm.bitmapTest frame = true := by
    intro frame used
    rw [pmm]
    split
    · exact used
    · exact allocFrame_keeps used
  refine ⟨⟨set.sound, ?_, ?_⟩, ?_⟩
  · intro index bound table
    rcases set.hasTable table with ⟨before, same⟩ | ⟨rfl, absent, same⟩
    · rw [same]
      obtain ⟨nonzero, reserved⟩ := guarded.reserved index bound before
      exact ⟨nonzero, used _ reserved⟩
    · obtain ⟨_, taken, _, nonzero, _⟩ := guarded.allocFrame_success (success absent)
      rw [same, pmm, if_neg absent]
      exact ⟨nonzero, taken⟩
  · rw [pmm]
    split
    · exact guarded.memory
    · exact (totalFrames_allocFrame m.pmm) ▸ guarded.memory
  · rintro frame ⟨noTable, on⟩
    refine ⟨?_, used frame on⟩
    intro index bound table taken
    rcases set.hasTable table with ⟨before, same⟩ | ⟨rfl, absent, same⟩
    · exact noTable index bound before (same ▸ taken)
    · have off := (guarded.allocFrame_success (success absent)).1
      rw [← same, taken, on] at off
      exact absurd off (by decide)

theorem Guarded.mapUser (guarded : m.Guarded) {virt : Nat} (user : virt < 0xC0000000)
    (phys flags : Nat) :
    Confined m (vmmMapPage m virt phys flags) ∧
      (∀ frame, m.Harmless frame → (vmmMapPage m virt phys flags).Harmless frame) ∧
      (∀ other, pdIndex other ≠ recursivePdIndex →
        (vmmMapPage m virt phys flags).entry other = m.entry other ∨
          (vmmMapPage m virt phys flags).entry other = tableEntry phys flags) ∧
      ((vmmMapPage m virt phys flags).entry virt = 0 ∨
        (vmmMapPage m virt phys flags).entry virt = tableEntry phys flags) := by
  have sound := guarded.toTablesSound
  have pmm := vmmMapPage_pmm sound virt phys flags
  by_cases unlinked : ¬ m.HasTable (pdIndex virt) ∧ (pmmAllocFrame m.pmm).1 = 0
  · rw [vmmMapPage_failed sound phys flags unlinked.1 unlinked.2]
    refine ⟨guarded.allocFrame, fun frame harmless => ?_, fun other _ => Or.inl rfl,
      Or.inl (if_neg unlinked.1)⟩
    exact ⟨harmless.1, allocFrame_keeps harmless.2⟩
  · have success : ¬ m.HasTable (pdIndex virt) → (pmmAllocFrame m.pmm).1 ≠ 0 :=
      fun absent failed => unlinked ⟨absent, failed⟩
    have set := vmmMapPage_setsEntry sound (user_ne_recursive user) phys flags fun absent =>
      ⟨success absent, (guarded.allocFrame_success (success absent)).2.2.1⟩
    obtain ⟨afterGuarded, harmless⟩ := set.guarded guarded pmm success
    refine ⟨⟨afterGuarded, set.kernelKept user⟩, harmless, fun other outside => ?_,
      Or.inr ((set.entry_eq (user_ne_recursive user)).trans (if_pos rfl))⟩
    rw [set.entry_eq outside]
    by_cases page : pageOf other = pageOf virt
    · exact Or.inr (if_pos page)
    · exact Or.inl (if_neg page)

theorem Guarded.unmapUser (guarded : m.Guarded) {virt : Nat} (user : virt < 0xC0000000) :
    Confined m (vmmUnmapPage m virt) ∧
      (∀ frame, m.FreshTable frame → (vmmUnmapPage m virt).FreshTable frame) ∧
      ∀ other, pdIndex other ≠ recursivePdIndex →
        (vmmUnmapPage m virt).entry other = m.entry other ∨
          (vmmUnmapPage m virt).entry other = 0 := by
  have sound := guarded.toTablesSound
  have pmm := vmmUnmapPage_pmm m virt
  by_cases linked : m.HasTable (pdIndex virt)
  · have set := vmmUnmapPage_setsEntry sound (user_ne_recursive user) linked
    generalize vmmUnmapPage m virt = after at pmm set ⊢
    have tables : ∀ index, after.HasTable index →
        m.HasTable index ∧ frameOf (after.pde index) = frameOf (m.pde index) := by
      intro index table
      rcases set.hasTable table with same | ⟨rfl, absent, _⟩
      · exact same
      · exact absurd linked absent
    refine ⟨⟨⟨set.sound, ?_, pmm ▸ guarded.memory⟩, set.kernelKept user⟩, ?_, ?_⟩
    · intro index bound table
      obtain ⟨before, same⟩ := tables index table
      rw [same, pmm]
      exact guarded.reserved index bound before
    · intro frame noTable index bound table taken
      obtain ⟨before, same⟩ := tables index table
      exact noTable index bound before (same ▸ taken)
    · intro other outside
      rw [set.entry_eq outside]
      by_cases page : pageOf other = pageOf virt
      · exact Or.inr (if_pos page)
      · exact Or.inl (if_neg page)
  · rw [vmmUnmapPage_absent sound linked]
    exact ⟨Confined.refl guarded, fun _ fresh => fresh, fun _ _ => Or.inl rfl⟩

/-! Writes to a frame that is no table. -/

structure OffFrame (m after : Mm) (frame : Nat) : Prop where
  pmm : after.pmm = m.pmm
  cr3 : after.cr3 = m.cr3
  phys : ∀ other, other ≠ frame → after.phys other = m.phys other

theorem offFrame_clearFrom (m : Mm) (frame offset : Nat) :
    OffFrame m (m.clearFrom frame offset) frame := by
  refine ⟨rfl, rfl, fun other apart => ?_⟩
  funext index
  simp [clearFrom, apart]

theorem offFrame_clearBelow (m : Mm) (frame offset : Nat) :
    OffFrame m (m.clearBelow frame offset) frame := by
  refine ⟨rfl, rfl, fun other apart => ?_⟩
  funext index
  simp [clearBelow, apart]

theorem Guarded.writeFrame (guarded : m.Guarded) {after : Mm} {frame : Nat}
    (off : OffFrame m after frame) (fresh : m.FreshTable frame) :
    Confined m after ∧ (∀ other, m.Harmless other → after.Harmless other) ∧
      ∀ virt, after.entry virt = m.entry virt := by
  have directory : ∀ index, after.pde index = m.pde index := by
    intro index
    have apart : m.cr3 / 4096 ≠ frame := by
      rw [← guarded.recursive]
      exact fresh recursivePdIndex (by decide) guarded.present
    rw [pde, off.cr3, off.phys _ apart]
    rfl
  have has : ∀ index, after.HasTable index ↔ m.HasTable index := by
    intro index
    rw [HasTable, directory, HasTable]
  have tables : ∀ index < 1024, m.HasTable index → ∀ slot,
      after.pte index slot = m.pte index slot := by
    intro index bound table slot
    rw [pte, directory, off.phys _ (fresh index bound table)]
    rfl
  refine ⟨⟨⟨guarded.toTablesSound.congr off.cr3 directory, ?_, ?_⟩, ⟨off.cr3, ?_, ?_⟩⟩, ?_, ?_⟩
  · intro index bound table
    rw [directory, off.pmm]
    exact guarded.reserved index bound ((has index).mp table)
  · rw [off.pmm]
    exact guarded.memory
  · exact fun index _ _ => directory index
  · exact fun index _ high table slot _ =>
      tables index (Nat.lt_trans high (by decide)) table slot
  · rintro other ⟨noTable, on⟩
    refine ⟨?_, by rw [off.pmm]; exact on⟩
    intro index bound table taken
    rw [directory] at taken
    exact noTable index bound ((has index).mp table) taken
  · intro virt
    by_cases table : m.HasTable (pdIndex virt)
    · rw [entry, if_pos ((has _).mpr table), entry, if_pos table,
        tables _ (pdIndex_lt virt) table]
    · rw [entry, if_neg (fun present => table ((has _).mp present)), entry, if_neg table]

def Maps (m : Mm) (virt : Nat) (property : Nat → Prop) : Prop :=
  m.entry virt &&& pagePresent ≠ 0 → property (frameOf (m.entry virt))

theorem Maps.of_entry {after : Mm} {virt : Nat} {before now : Nat → Prop}
    (mapped : m.Maps virt before) (weaker : ∀ frame, before frame → now frame)
    (same : after.entry virt = m.entry virt ∨ after.entry virt = 0) : after.Maps virt now := by
  intro present
  rcases same with same | same
  · rw [same] at present ⊢
    exact weaker _ (mapped present)
  · rw [same] at present
    exact absurd rfl present

theorem mmuFrame_mapped {virt : Nat} (present : m.entry virt &&& pagePresent ≠ 0) :
    m.mmuFrame virt = frameOf (m.entry virt) := by
  by_cases table : m.HasTable (pdIndex virt)
  · rw [entry, if_pos table]
    rfl
  · rw [entry, if_neg table] at present
    exact absurd rfl present

theorem vmmIsMapped_iff (sound : m.TablesSound) (virt : Nat) :
    vmmIsMapped m virt = true ↔ m.entry virt &&& pagePresent ≠ 0 := by
  rw [vmmIsMapped_eq sound, bne_iff_ne]

theorem Guarded.memsetPage (guarded : m.Guarded) {page : Nat} (own : m.Maps page m.Harmless)
    (spill : page % 4096 ≠ 0 → m.Maps (page + 0x1000) m.Harmless) :
    Confined m (memsetPage m page) ∧
      (∀ frame, m.Harmless frame → (memsetPage m page).Harmless frame) ∧
      ∀ virt, (memsetPage m page).entry virt = m.entry virt := by
  -- The first write reaches the page's own frame.
  obtain ⟨middle, cleared, confined, harmless, entries⟩ : ∃ middle,
      (if vmmIsMapped m page then m.clearFrom (m.mmuFrame page) (page &&& 0xFFF) else m) = middle ∧
        Confined m middle ∧ (∀ frame, m.Harmless frame → middle.Harmless frame) ∧
        ∀ virt, middle.entry virt = m.entry virt := by
    by_cases mapped : vmmIsMapped m page = true
    · have present := (vmmIsMapped_iff guarded.toTablesSound page).mp mapped
      refine ⟨_, if_pos mapped, guarded.writeFrame (offFrame_clearFrom m _ _) ?_⟩
      rw [mmuFrame_mapped present]
      exact (own present).1
    · exact ⟨m, if_neg mapped, Confined.refl guarded, fun _ same => same, fun _ => rfl⟩
  simp only [ZurichOS.memsetPage, cleared]
  split
  · rename_i runsOn
    have unaligned : page % 4096 ≠ 0 := by
      rw [← and_offsetMask]
      exact runsOn.1
    have present := (vmmIsMapped_iff confined.guarded.toTablesSound _).mp runsOn.2
    have next : middle.FreshTable (middle.mmuFrame (page + 0x1000)) := by
      rw [mmuFrame_mapped present]
      exact ((spill unaligned).of_entry harmless (Or.inl (entries _)) present).1
    obtain ⟨again, harmlessAgain, entriesAgain⟩ :=
      confined.guarded.writeFrame (offFrame_clearBelow middle _ (page &&& 0xFFF)) next
    exact ⟨confined.trans again, fun frame same => harmlessAgain frame (harmless frame same),
      fun virt => (entriesAgain virt).trans (entries virt)⟩
  · exact ⟨confined, harmless, entries⟩

/-! The page loops. -/

/-- A loop whose rounds are confined and leave the later rounds fine is confined. -/
theorem foldl_confined {α : Type} {step : Mm → α → Mm} (fine : Mm → α → Prop)
    (round : ∀ m item, m.Guarded → fine m item →
      Confined m (step m item) ∧ ∀ other, fine m other → fine (step m item) other)
    (items : List α) (guarded : m.Guarded) (all : ∀ item ∈ items, fine m item) :
    Confined m (items.foldl step m) := by
  induction items generalizing m with
  | nil => exact Confined.refl guarded
  | cons item rest ih =>
      obtain ⟨confined, later⟩ := round m item guarded (all item (by simp))
      refine confined.trans (ih confined.guarded ?_)
      exact fun other member => later other (all other (by simp [member]))

theorem physical_frame (sound : m.TablesSound) (virt : Nat) :
    vmmGetPhysical m virt / 4096 =
      if m.entry virt &&& pagePresent = 0 then 0 else frameOf (m.entry virt) := by
  rw [vmmGetPhysical_eq sound]
  split
  · rfl
  · have low : virt &&& 0xFFF < 4096 := by
      rw [and_offsetMask]
      omega
    have bound : m.entry virt &&& 0xFFFFF000 < 4294967296 :=
      Nat.lt_of_le_of_lt Nat.and_le_right (by decide)
    have aligned : m.entry virt &&& 0xFFFFF000 =
        (m.entry virt &&& 0xFFFFF000) / 4096 * 4096 := by
      rw [← and_pageMask bound, Nat.and_assoc, Nat.and_self]
    rw [aligned, page_or _ _ low, frameOf]
    omega

def Freeable (m : Mm) (page : Nat) : Prop := page < 0xC0000000 ∧ m.Maps page m.FreshTable

theorem Guarded.unmapFree (guarded : m.Guarded) {page : Nat} (free : m.Freeable page) :
    let after : Mm :=
      { vmmUnmapPage m page with pmm := pmmFreeFrame m.pmm (vmmGetPhysical m page) }
    Confined m after ∧ ∀ other, m.Freeable other → after.Freeable other := by
  intro after
  obtain ⟨user, own⟩ := free
  obtain ⟨confined, fresh, entries⟩ := guarded.unmapUser user
  have unused : m.FreshTable (vmmGetPhysical m page / 4096) := by
    rw [physical_frame guarded.toTablesSound]
    split
    · exact fun index bound table => (guarded.reserved index bound table).1
    · exact own ‹_›
  have freed := confined.guarded.freeFrame (fresh _ unused)
  rw [vmmUnmapPage_pmm] at freed
  refine ⟨confined.trans freed, ?_⟩
  rintro other ⟨otherUser, mapped⟩
  exact ⟨otherUser, mapped.of_entry fresh (entries other (user_ne_recursive otherUser))⟩

theorem mmapRollback_confined (guarded : m.Guarded) (pages : List Nat)
    (free : ∀ page ∈ pages, m.Freeable page) : Confined m (pages.foldl mmapRollback m) := by
  refine foldl_confined Freeable ?_ pages guarded free
  intro m page guarded free
  have step := guarded.unmapFree free
  rw [mmapRollback, vmmUnmapPage_pmm]
  exact step

theorem munmapPages_confined (guarded : m.Guarded) (shared : Bool) (pages : List Nat)
    (user : ∀ page ∈ pages, page < 0xC0000000)
    (free : shared = false → ∀ page ∈ pages, m.Maps page m.FreshTable) :
    Confined m (pages.foldl (munmapPage shared) m) := by
  cases shared with
  | false =>
      refine foldl_confined Freeable ?_ pages guarded fun page member =>
        ⟨user page member, free rfl page member⟩
      intro m page guarded free
      have step := guarded.unmapFree free
      rw [munmapPage]
      split
      · simp only [Bool.false_eq_true, if_false, vmmUnmapPage_pmm]
        exact step
      · exact ⟨Confined.refl guarded, fun _ same => same⟩
  | true =>
      refine foldl_confined (fun _ page => page < 0xC0000000) ?_ pages guarded user
      intro m page guarded user
      rw [munmapPage]
      split
      · exact ⟨(guarded.unmapUser user).1, fun _ same => same⟩
      · exact ⟨Confined.refl guarded, fun _ same => same⟩

theorem mprotectPages_confined (guarded : m.Guarded) (flags : Nat) (pages : List Nat)
    (user : ∀ page ∈ pages, page < 0xC0000000) :
    Confined m (pages.foldl (mprotectPage flags) m) := by
  refine foldl_confined (fun _ page => page < 0xC0000000) ?_ pages guarded user
  intro m page guarded user
  refine ⟨?_, fun _ same => same⟩
  rw [mprotectPage]
  split
  · have unmapped := (guarded.unmapUser user).1
    exact unmapped.trans (unmapped.guarded.mapUser user _ flags).1
  · exact Confined.refl guarded

theorem Guarded.mmapRound (guarded : m.Guarded) {page phys : Nat} (flags : Nat)
    (user : page < 0x80000000) (frame : m.Harmless (frameOf phys))
    (spill : page % 4096 ≠ 0 → m.Maps (page + 0x1000) m.Harmless) :
    let after := ZurichOS.memsetPage (vmmMapPage m page phys flags) page
    Confined m after ∧ after.Maps page after.Harmless ∧
      ∀ other, other < 0xC0000000 → m.Maps other m.Harmless → after.Maps other after.Harmless := by
  intro after
  obtain ⟨mapped, kept, others, own⟩ :=
    guarded.mapUser (show page < 0xC0000000 by omega) phys flags
  have target : frameOf (tableEntry phys flags) = frameOf phys := by
    rw [frameOf, tableEntry_page, frameOf]
  have given : (vmmMapPage m page phys flags).Maps page
      (vmmMapPage m page phys flags).Harmless := by
    intro present
    rcases own with absent | set
    · exact absurd (by rw [absent]; rfl) present
    · rw [set, target]
      exact kept _ frame
  have keeps : ∀ other, other < 0xC0000000 → m.Maps other m.Harmless →
      (vmmMapPage m page phys flags).Maps other (vmmMapPage m page phys flags).Harmless := by
    intro other low before
    rcases others other (user_ne_recursive low) with same | set
    · exact before.of_entry kept (Or.inl same)
    · intro _
      rw [set, target]
      exact kept _ frame
  obtain ⟨cleared, harmless, entries⟩ := mapped.guarded.memsetPage given fun unaligned =>
    keeps _ (by omega) (spill unaligned)
  refine ⟨mapped.trans cleared, given.of_entry harmless (Or.inl (entries page)), ?_⟩
  exact fun other low before => (keeps other low before).of_entry harmless (Or.inl (entries other))

/-- A round of the page loop of `mmap` that gets a frame. -/
def mmapStep (m : Mm) (page : Nat) : Mm :=
  ZurichOS.memsetPage (vmmMapPage { m with pmm := (pmmAllocFrame m.pmm).2 } page (pmmAllocFrame m.pmm).1
    (pageUser ||| pagePresent ||| pageWrite)) page

/-- The rule of the page loop: what holds between the pages done and those to come is kept by
each round, and gives the result at the end and where the frames run out. -/
theorem mmapPages_rule {vaddr stop : Nat} (inv : List Nat → List Nat → Mm → Prop)
    (post : Bool × Mm → Prop)
    (round : ∀ front page rest m, pageLoop vaddr stop = front ++ page :: rest →
      inv front (page :: rest) m → (pmmAllocFrame m.pmm).1 ≠ 0 →
      inv (front ++ [page]) rest (m.mmapStep page))
    (dry : ∀ front page rest m, pageLoop vaddr stop = front ++ page :: rest →
      inv front (page :: rest) m → (pmmAllocFrame m.pmm).1 = 0 →
      post (false, front.foldl mmapRollback { m with pmm := (pmmAllocFrame m.pmm).2 }))
    (finish : ∀ m, inv (pageLoop vaddr stop) [] m → post (true, m))
    (start : inv [] (pageLoop vaddr stop) m) : post (mmapPages vaddr (pageLoop vaddr stop) m) := by
  have loop : ∀ rest front m, pageLoop vaddr stop = front ++ rest → inv front rest m →
      post (mmapPages vaddr rest m) := by
    intro rest
    induction rest with
    | nil =>
        intro front m shape holds
        rw [List.append_nil] at shape
        exact finish m (shape ▸ holds)
    | cons page rest ih =>
        intro front m shape holds
        by_cases failed : (pmmAllocFrame m.pmm).1 = 0
        · rw [mmapPages, if_pos failed, pageLoop_prefix shape]
          exact dry front page rest m shape holds failed
        · rw [mmapPages, if_neg failed]
          exact ih (front ++ [page]) _ (by simp [shape]) (round front page rest m shape holds failed)
  exact loop _ [] m rfl start

/-- The loop of `mmap`, where what an unaligned range runs on into maps harmless frames. -/
theorem mmapPages_confined {vaddr stop : Nat} (guarded : m.Guarded) (user : stop ≤ 0x80000000)
    (spill : vaddr % 4096 ≠ 0 → ∀ p ∈ pageLoop vaddr stop, m.Maps (p + 0x1000) m.Harmless) :
    Confined m (mmapPages vaddr (pageLoop vaddr stop) m).2 := by
  have inside : ∀ {pages : List Nat}, pageLoop vaddr stop = pages → ∀ p ∈ pages,
      p < 0x80000000 ∧ (p - vaddr) % 4096 = 0 ∧ vaddr ≤ p := by
    rintro _ rfl p member
    rw [mem_pageLoop] at member
    omega
  refine mmapPages_rule (fun front rest now => Confined m now ∧
    (∀ p ∈ front, now.Maps p now.Harmless) ∧
      (vaddr % 4096 ≠ 0 → ∀ p ∈ rest, now.Maps (p + 0x1000) now.Harmless))
    (fun result => Confined m result.2) ?_ ?_ (fun now all => all.1)
    ⟨Confined.refl guarded, by simp, spill⟩
  · rintro front page rest now shape ⟨confined, done, later⟩ success
    have low := fun p member => (inside shape p member).1
    have guarded := confined.guarded
    have taken := guarded.allocFrame
    obtain ⟨_, used, fresh, _, _⟩ := guarded.allocFrame_success success
    have given : Harmless { now with pmm := (pmmAllocFrame now.pmm).2 }
        (frameOf (pmmAllocFrame now.pmm).1) := by
      rw [frameOf_allocFrame]
      exact ⟨fresh, used⟩
    have still : ∀ p, now.Maps p now.Harmless →
        Maps { now with pmm := (pmmAllocFrame now.pmm).2 } p
          (Harmless { now with pmm := (pmmAllocFrame now.pmm).2 }) := fun p before =>
      before.of_entry (fun frame same => ⟨same.1, allocFrame_keeps same.2⟩) (Or.inl rfl)
    have unaligned : page % 4096 ≠ 0 → vaddr % 4096 ≠ 0 := by
      have begun := inside shape page (by simp)
      omega
    obtain ⟨round, own, others⟩ := taken.guarded.mmapRound
      (pageUser ||| pagePresent ||| pageWrite) (low page (by simp)) given
      fun off => still _ (later (unaligned off) page (by simp))
    refine ⟨(confined.trans taken).trans round, fun p member => ?_, fun off p member => ?_⟩
    · rcases List.mem_append.mp member with earlier | last
      · exact others p (Nat.lt_trans (low p (by simp [earlier])) (by decide)) (still p (done p earlier))
      · cases List.mem_singleton.mp last
        exact own
    · have below := low p (by simp [member])
      exact others _ (by omega) (still _ (later off p (by simp [member])))
  · rintro front page rest now shape ⟨confined, done, _⟩ _
    have taken := confined.guarded.allocFrame
    refine (confined.trans taken).trans (mmapRollback_confined taken.guarded _ fun p member => ?_)
    exact ⟨Nat.lt_trans (inside shape p (by simp [member])).1 (by decide),
      fun present => (done p member present).1⟩

theorem foldl_freeFrame_keeps {pmm : Pmm} (addrs : List Nat) {frame : Nat}
    (used : pmm.bitmapTest frame = true) (apart : ∀ addr ∈ addrs, addr / 4096 ≠ frame) :
    (addrs.foldl pmmFreeFrame pmm).bitmapTest frame = true ∧
      (addrs.foldl pmmFreeFrame pmm).totalFrames = pmm.totalFrames := by
  induction addrs generalizing pmm with
  | nil => exact ⟨used, rfl⟩
  | cons addr rest ih =>
      obtain ⟨still, total⟩ := ih (freeFrame_keeps used (apart addr (by simp)))
        fun other member => apart other (by simp [member])
      exact ⟨still, total.trans (totalFrames_freeFrame pmm addr)⟩

theorem shmTakeFrames_keeps {pmm : Pmm} {phys index count frame : Nat}
    (used : pmm.bitmapTest frame = true)
    (apart : (shmTakeFrames phys index count pmm).1 = true ∨
      ∀ i < index + count, shmFrame phys i / 4096 ≠ frame) :
    (shmTakeFrames phys index count pmm).2.bitmapTest frame = true ∧
      (shmTakeFrames phys index count pmm).2.totalFrames = pmm.totalFrames := by
  induction count generalizing pmm index with
  | zero => exact ⟨used, rfl⟩
  | succ count ih =>
      have kept := allocFrame_keeps used
      have total := totalFrames_allocFrame pmm
      simp only [shmTakeFrames] at apart ⊢
      split
      · rename_i failed
        simp only [failed, if_true, Bool.false_eq_true, false_or] at apart
        obtain ⟨still, same⟩ := foldl_freeFrame_keeps ((List.range index).map (shmFrame phys)) kept
          fun addr member => by
            obtain ⟨i, below, rfl⟩ := List.mem_map.mp member
            exact apart i (by have := List.mem_range.mp below; omega)
        exact ⟨still, same.trans total⟩
      · rename_i success
        simp only [success, if_false] at apart
        obtain ⟨still, same⟩ := ih kept
          (apart.imp_right fun outside i below => outside i (by omega))
        exact ⟨still, same.trans total⟩

end Mm

open Mm

/-- The calls that stay in the user half and leave the frames of page tables alone: the
pages named end below the kernel, `munmap` frees no page table, a failing `shmget` takes
none for its own, and an unaligned `mmap` runs on into none. -/
def StaysInUserHalf (s : UserMemory) : MemoryCall → Prop
  | .mmap addr length _ flags => flags &&& mapFixed = 0 ∨ addr % 4096 = 0 ∨
      ∀ page ∈ pageLoop addr (u32 (addr + roundLength length)),
        s.mm.Maps (page + 0x1000) s.mm.Harmless
  | .munmap addr length => ∀ pid index, vmaFind s addr = some (pid, index) →
      ∀ page ∈ pageLoop addr (u32 (addr + roundLength length)), page < 0xC0000000 ∧
        ((s.processVmas pid index).flags &&& mapShared = 0 → s.mm.Maps page s.mm.FreshTable)
  | .mprotect addr length _ => vmaFind s addr ≠ none →
      ∀ page ∈ pageLoop addr (u32 (addr + roundLength length)), page < 0xC0000000
  | .shmget _ size =>
      let first := pmmAllocFrame s.mm.pmm
      (shmTakeFrames first.1 1 (shmPages size - 1) first.2).1 = true ∨
        ∀ i < 1 + (shmPages size - 1), s.mm.FreshTable (shmFrame first.1 i / 4096)
  | .shmat shmid vaddr => (s.shmRegions shmid).inUse = true →
      ∀ page ∈ shmAddresses vaddr (s.shmRegions shmid).size, page < 0xC0000000
  | .shmdt addr => ∀ shmid, shmFirst s = some shmid →
      ∀ page ∈ shmAddresses addr (s.shmRegions shmid).size, page < 0xC0000000
  | .setCurrent _ => True

structure UserMemory.Sound (s : UserMemory) : Prop where
  guarded : s.mm.Guarded
  aligned : s.nextMmapAddr % 4096 = 0

theorem vmaCreate_eq_some {s after : UserMemory} {first stop prot flags pid index : Nat}
    (created : vmaCreate s first stop prot flags = some (pid, index, after)) :
    getVmaTable s = some pid ∧ index < maxVmasPerProc ∧ (s.processVmas pid index).inUse = false ∧
      ∃ vma : Vma, (vma.inUse = true ∧ vma.start = first ∧ vma.stop = stop ∧ vma.cow = false) ∧
        after = s.setVma pid index vma := by
  simp only [vmaCreate, Option.bind_eq_bind, Option.bind_eq_some_iff, Option.pure_def,
    Option.some.injEq, Prod.mk.injEq] at created
  obtain ⟨_, table, _, slot, rfl, rfl, rfl⟩ := created
  have free := List.find?_some slot
  exact ⟨table, List.mem_range.mp (List.mem_of_find?_eq_some slot), by simpa using free, _,
    ⟨rfl, rfl, rfl, rfl⟩, rfl⟩

theorem roundLength_aligned (length : Nat) : roundLength length % 4096 = 0 := by
  rw [roundLength, and_pageMask (u32_lt _)]
  omega

/-! What `mmap` does, in its cases. -/

def mmapAddress (s : UserMemory) (addr flags : Nat) : Nat :=
  if flags &&& mapFixed ≠ 0 then addr else s.nextMmapAddr

def mmapAccepted (s : UserMemory) (addr length flags : Nat) : Prop :=
  length ≠ 0 ∧ ¬ ((flags &&& mapFixed ≠ 0 ∧ mmapAddress s addr flags < userMmapStart) ∨
    userMmapEnd < u32 (mmapAddress s addr flags + roundLength length))

def UserMemory.bump (s : UserMemory) (length flags : Nat) : UserMemory :=
  if flags &&& mapFixed ≠ 0 then s
  else { s with nextMmapAddr := u32 (s.nextMmapAddr + roundLength length) }

theorem bump_same (s : UserMemory) (length flags : Nat) :
    (s.bump length flags).mm = s.mm ∧ (s.bump length flags).processVmas = s.processVmas ∧
      (s.bump length flags).pid = s.pid := by
  unfold UserMemory.bump
  split <;> exact ⟨rfl, rfl, rfl⟩

/-- The pages of an anonymous `mmap`, and its area, which a failure destroys again. -/
def UserMemory.mapArea (s : UserMemory) (pid index vaddr stop : Nat) : UserMemory :=
  let mapped := mmapPages vaddr (pageLoop vaddr stop) s.mm
  if mapped.1 then { s with mm := mapped.2 } else vmaDestroy { s with mm := mapped.2 } pid index

theorem sysMmap_results (s : UserMemory) (addr length prot flags : Nat) :
    let vaddr := mmapAddress s addr flags
    let stop := u32 (vaddr + roundLength length)
    let bumped := s.bump length flags
    let result := sysMmap s addr length prot flags
    (¬ mmapAccepted s addr length flags ∧ result = (mapFailed, s)) ∨
      mmapAccepted s addr length flags ∧
        ((vmaCreate bumped vaddr stop prot flags = none ∧ result = (mapFailed, bumped)) ∨
          ∃ pid index made, vmaCreate bumped vaddr stop prot flags = some (pid, index, made) ∧
            (flags &&& mapAnonymous = 0 ∧ result = (mapFailed, vmaDestroy made pid index) ∨
              flags &&& mapAnonymous ≠ 0 ∧ result =
                (if (mmapPages vaddr (pageLoop vaddr stop) made.mm).1 then vaddr else mapFailed,
                  made.mapArea pid index vaddr stop))) := by
  dsimp only
  by_cases zero : length = 0
  · rw [sysMmap, if_pos zero]
    exact .inl ⟨fun accepted => accepted.1 zero, rfl⟩
  by_cases refused : (flags &&& mapFixed ≠ 0 ∧ mmapAddress s addr flags < userMmapStart) ∨
      userMmapEnd < u32 (mmapAddress s addr flags + roundLength length)
  · refine .inl ⟨fun accepted => accepted.2 refused, ?_⟩
    rw [sysMmap, if_neg zero]
    exact if_pos refused
  refine .inr ⟨⟨zero, refused⟩, ?_⟩
  rw [sysMmap, if_neg zero]
  unfold mmapAddress at refused ⊢
  unfold UserMemory.bump
  dsimp only
  rw [if_neg refused]
  generalize (if flags &&& mapFixed ≠ 0 then addr else s.nextMmapAddr) = vaddr
  generalize (if flags &&& mapFixed ≠ 0 then s
    else { s with nextMmapAddr := u32 (s.nextMmapAddr + roundLength length) }) = bumped
  cases created : vmaCreate bumped vaddr (u32 (vaddr + roundLength length)) prot flags with
  | none => exact .inl ⟨rfl, rfl⟩
  | some made =>
      obtain ⟨pid, index, made⟩ := made
      refine .inr ⟨pid, index, made, rfl, ?_⟩
      by_cases anonymous : flags &&& mapAnonymous = 0
      · exact .inl ⟨anonymous, if_pos anonymous⟩
      · refine .inr ⟨anonymous, (if_neg anonymous).trans ?_⟩
        rw [UserMemory.mapArea]
        split <;> rfl

theorem sysMmap_cases (s : UserMemory) (addr length prot flags : Nat) :
    let vaddr := mmapAddress s addr flags
    let stop := u32 (vaddr + roundLength length)
    let bumped := s.bump length flags
    let after := (sysMmap s addr length prot flags).2
    (¬ mmapAccepted s addr length flags ∧ after = s) ∨
      mmapAccepted s addr length flags ∧
        ((vmaCreate bumped vaddr stop prot flags = none ∧ after = bumped) ∨
          ∃ pid index made, vmaCreate bumped vaddr stop prot flags = some (pid, index, made) ∧
            (flags &&& mapAnonymous = 0 ∧ after = vmaDestroy made pid index ∨
              flags &&& mapAnonymous ≠ 0 ∧ after = made.mapArea pid index vaddr stop)) := by
  dsimp only
  rcases sysMmap_results s addr length prot flags with ⟨refused, result⟩ | ⟨accepted, noArea | made⟩
  · exact .inl ⟨refused, congrArg Prod.snd result⟩
  · exact .inr ⟨accepted, .inl ⟨noArea.1, congrArg Prod.snd noArea.2⟩⟩
  · obtain ⟨pid, index, made, created, outcome⟩ := made
    refine .inr ⟨accepted, .inr ⟨pid, index, made, created, ?_⟩⟩
    exact outcome.imp (fun plain => ⟨plain.1, congrArg Prod.snd plain.2⟩)
      fun mapped => ⟨mapped.1, congrArg Prod.snd mapped.2⟩

/-- Only an address that the caller fixes may be unaligned. -/
theorem mmap_spill {s : UserMemory} (aligned : s.nextMmapAddr % 4096 = 0) {addr length flags : Nat}
    (stays : flags &&& mapFixed = 0 ∨ addr % 4096 = 0 ∨
      ∀ page ∈ pageLoop addr (u32 (addr + roundLength length)),
        s.mm.Maps (page + 0x1000) s.mm.Harmless)
    (unaligned : mmapAddress s addr flags % 4096 ≠ 0) :
    ∀ page ∈ pageLoop (mmapAddress s addr flags)
      (u32 (mmapAddress s addr flags + roundLength length)),
      s.mm.Maps (page + 0x1000) s.mm.Harmless := by
  unfold mmapAddress at unaligned ⊢
  by_cases fixed : flags &&& mapFixed = 0
  · rw [if_neg (by simpa using fixed)] at unaligned
    exact absurd aligned unaligned
  · rw [if_pos fixed] at unaligned ⊢
    exact (stays.resolve_left fixed).resolve_left unaligned

/-! What a step leaves of the memory, whatever its loop made of it. -/

theorem confined_mm {s : UserMemory} {before mm : Mm} (aligned : s.nextMmapAddr % 4096 = 0)
    (confined : Confined before mm) :
    ({ s with mm } : UserMemory).Sound ∧ Confined before ({ s with mm } : UserMemory).mm :=
  ⟨⟨confined.guarded, aligned⟩, confined⟩

theorem confined_setVma {s : UserMemory} {before : Mm} (kept : s.Sound ∧ Confined before s.mm)
    (pid index : Nat) (vma : Vma) :
    (s.setVma pid index vma).Sound ∧ Confined before (s.setVma pid index vma).mm :=
  ⟨⟨kept.1.guarded, kept.1.aligned⟩, kept.2⟩

theorem confined_setRegion {s : UserMemory} {before : Mm} (kept : s.Sound ∧ Confined before s.mm)
    (index : Nat) (region : ShmRegion) :
    (s.setRegion index region).Sound ∧ Confined before (s.setRegion index region).mm :=
  ⟨⟨kept.1.guarded, kept.1.aligned⟩, kept.2⟩

theorem sysMmap_confined {s : UserMemory} (sound : s.Sound) {addr length prot flags : Nat}
    (stays : StaysInUserHalf s (.mmap addr length prot flags)) :
    (sysMmap s addr length prot flags).2.Sound ∧
      Confined s.mm (sysMmap s addr length prot flags).2.mm := by
  have same := Confined.refl sound.guarded
  have whole := sound.aligned
  obtain ⟨mm, _, _⟩ := bump_same s length flags
  have aligned : (s.bump length flags).nextMmapAddr % 4096 = 0 := by
    have round := roundLength_aligned length
    unfold UserMemory.bump
    split
    · exact whole
    · show u32 (s.nextMmapAddr + roundLength length) % 4096 = 0
      unfold u32
      omega
  rcases sysMmap_cases s addr length prot flags with ⟨_, after⟩ | ⟨accepted, ⟨_, after⟩ | made⟩
  · rw [after]
    exact ⟨sound, same⟩
  · rw [after]
    exact ⟨⟨mm ▸ sound.guarded, aligned⟩, mm ▸ same⟩
  obtain ⟨pid, index, made, created, mapped⟩ := made
  obtain ⟨_, _, _, vma, _, rfl⟩ := vmaCreate_eq_some created
  have next : ((s.bump length flags).setVma pid index vma).nextMmapAddr % 4096 = 0 := aligned
  have madeMm : ((s.bump length flags).setVma pid index vma).mm = s.mm := mm
  rcases mapped with ⟨_, after⟩ | ⟨_, after⟩
  · rw [after]
    exact confined_setVma ⟨⟨mm ▸ sound.guarded, next⟩, mm ▸ same⟩ pid index _
  · have looped := mmapPages_confined sound.guarded
      (Nat.le_of_not_lt fun beyond => accepted.2 (.inr beyond)) (mmap_spill whole stays)
    rw [after, UserMemory.mapArea, madeMm]
    split
    · exact confined_mm next looped
    · exact confined_setVma (confined_mm next looped) pid index _

theorem sysMunmap_confined {s : UserMemory} (sound : s.Sound) {addr length : Nat}
    (stays : StaysInUserHalf s (.munmap addr length)) :
    (sysMunmap s addr length).2.Sound ∧ Confined s.mm (sysMunmap s addr length).2.mm := by
  have same := Confined.refl sound.guarded
  unfold sysMunmap
  split
  · exact ⟨sound, same⟩
  split
  · exact ⟨sound, same⟩
  dsimp only
  split
  · exact ⟨sound, same⟩
  rename_i pid index found
  have pages := stays pid index found
  have looped := munmapPages_confined sound.guarded
    (decide ((s.processVmas pid index).flags &&& mapShared ≠ 0))
    (pageLoop addr (u32 (addr + roundLength length))) (fun page member => (pages page member).1)
    fun unshared page member => (pages page member).2 (by simpa using unshared)
  have kept := confined_mm sound.aligned looped
  split
  · exact confined_setVma kept pid index _
  split
  · exact confined_setVma kept pid index _
  split
  · exact confined_setVma kept pid index _
  · exact kept

theorem sysMprotect_confined {s : UserMemory} (sound : s.Sound) {addr length prot : Nat}
    (stays : StaysInUserHalf s (.mprotect addr length prot)) :
    (sysMprotect s addr length prot).2.Sound ∧
      Confined s.mm (sysMprotect s addr length prot).2.mm := by
  have same := Confined.refl sound.guarded
  unfold sysMprotect
  split
  · exact ⟨sound, same⟩
  split
  · exact ⟨sound, same⟩
  dsimp only
  split
  · exact ⟨sound, same⟩
  rename_i pid index found
  have looped := fun flags => mprotectPages_confined sound.guarded flags
    (pageLoop addr (u32 (addr + roundLength length))) (stays (by simp [found]))
  exact confined_mm (s := s.setVma pid index _) sound.aligned (looped _)

theorem shmCreate_confined {s : UserMemory} (sound : s.Sound) {key size : Nat}
    (stays : StaysInUserHalf s (.shmget key size)) :
    (shmCreate s key size).2.Sound ∧ Confined s.mm (shmCreate s key size).2.mm := by
  have same := Confined.refl sound.guarded
  have taken := sound.guarded.allocFrame
  unfold shmCreate
  split
  · exact ⟨sound, same⟩
  dsimp only
  split
  · exact ⟨sound, same⟩
  split
  · exact ⟨sound, same⟩
  split
  · exact confined_mm sound.aligned taken
  have kept : ∀ index < 1024, s.mm.HasTable index → _ := fun index bound table =>
    shmTakeFrames_keeps (allocFrame_keeps (sound.guarded.reserved index bound table).2)
      (stays.imp_right fun outside i below => Ne.symm (outside i below index bound table))
  have total := (kept recursivePdIndex (by decide) sound.guarded.present).2
  have grown := sound.guarded.withPmm (total.trans (totalFrames_allocFrame s.mm.pmm))
    fun index bound table => (kept index bound table).1
  split
  · exact confined_setRegion (confined_mm sound.aligned grown) _ _
  · exact confined_mm sound.aligned grown

theorem shmAttach_confined {s : UserMemory} (sound : s.Sound) {shmid vaddr : Nat}
    (stays : StaysInUserHalf s (.shmat shmid vaddr)) :
    (shmAttach s shmid vaddr).2.Sound ∧ Confined s.mm (shmAttach s shmid vaddr).2.mm := by
  have same := Confined.refl sound.guarded
  unfold shmAttach
  split
  · exact ⟨sound, same⟩
  dsimp only
  split
  · rename_i inUse
    have looped : Confined s.mm ((List.range (shmPages (s.shmRegions shmid).size)).foldl
        (fun m i => vmmMapPage m (u32 (vaddr + i * 0x1000))
          (shmFrame (s.shmRegions shmid).physAddr i) (pagePresent ||| pageWrite ||| pageUser))
        s.mm) := by
      refine foldl_confined (fun _ i => u32 (vaddr + i * 0x1000) < 0xC0000000) ?_ _
        sound.guarded ?_
      · exact fun m i guarded user => ⟨(guarded.mapUser user _ _).1, fun _ same => same⟩
      · exact fun i member => stays inUse _ (List.mem_map.mpr ⟨i, member, rfl⟩)
    exact confined_setRegion (confined_mm sound.aligned looped) shmid _
  · exact ⟨sound, same⟩

theorem shmDetach_confined {s : UserMemory} (sound : s.Sound) {addr : Nat}
    (stays : StaysInUserHalf s (.shmdt addr)) :
    (shmDetach s addr).2.Sound ∧ Confined s.mm (shmDetach s addr).2.mm := by
  unfold shmDetach
  split
  · exact ⟨sound, Confined.refl sound.guarded⟩
  rename_i shmid first
  have looped : Confined s.mm
      ((shmAddresses addr (s.shmRegions shmid).size).foldl vmmUnmapPage s.mm) := by
    refine foldl_confined (fun _ page => page < 0xC0000000) ?_ _ sound.guarded (stays shmid first)
    exact fun m page guarded user => ⟨(guarded.unmapUser user).1, fun _ same => same⟩
  have kept := confined_mm sound.aligned looped
  dsimp only
  split
  · exact confined_setRegion kept shmid _
  · exact kept

theorem UserMemory.Sound.call {s : UserMemory} (sound : s.Sound) {call : MemoryCall}
    (stays : StaysInUserHalf s call) : (s.call call).Sound ∧ Confined s.mm (s.call call).mm := by
  cases call with
  | mmap addr length prot flags => exact sysMmap_confined sound stays
  | munmap addr length => exact sysMunmap_confined sound stays
  | mprotect addr length prot => exact sysMprotect_confined sound stays
  | shmget key size => exact shmCreate_confined sound stays
  | shmat shmid vaddr => exact shmAttach_confined sound stays
  | shmdt addr => exact shmDetach_confined sound stays
  | setCurrent pid => exact ⟨⟨sound.guarded, sound.aligned⟩, Confined.refl sound.guarded⟩

/-! Runs. -/

/-- The pages of the kernel half, less the slots of the recursive window that show the
user half's own directory entries. -/
def KernelPage (virt : Nat) : Prop :=
  0xC0000000 ≤ virt ∧ virt < 4294967296 ∧ ¬ (0xFFC00000 ≤ virt ∧ virt < 0xFFF00000)

theorem Mm.Confined.entry_eq {m after : Mm} (sound : m.TablesSound) (confined : Confined m after)
    {virt : Nat} (kernel : KernelPage virt) : after.entry virt = m.entry virt := by
  obtain ⟨low, high, outside⟩ := kernel
  have kept := confined.kernel
  have index : 768 ≤ pdIndex virt := by
    rw [pdIndex_eq]
    omega
  have bound := pdIndex_lt virt
  have same : after.HasTable (pdIndex virt) ↔ m.HasTable (pdIndex virt) := by
    rw [HasTable, kept.directory _ index bound, HasTable]
  by_cases table : m.HasTable (pdIndex virt)
  · rw [entry, if_pos (same.mpr table), entry, if_pos table]
    by_cases window : pdIndex virt = recursivePdIndex
    · have slot : 768 ≤ ptIndex virt := by
        have top : virt / 4194304 % 1024 = 1023 := (pdIndex_eq virt).symm.trans window
        rw [ptIndex_eq]
        omega
      rw [window, pte, pte, confined.guarded.recursive, sound.recursive]
      exact kept.directory _ slot (ptIndex_lt virt)
    · have inside : pdIndex virt < recursivePdIndex :=
        Nat.lt_of_le_of_ne (Nat.le_of_lt_succ bound) window
      exact kept.tables _ index inside table _ (ptIndex_lt virt)
  · rw [entry, if_neg (fun present => table (same.mp present)), entry, if_neg table]

def MemoryStep (s : UserMemory) (call : MemoryCall) (after : UserMemory) : Prop :=
  after = s.call call

def MemoryStart (mm : Mm) (s : UserMemory) : Prop := ∃ pid, s = UserMemory.start mm pid

/-- In a run of calls that stay in the user half, the kernel's directory slots and the
entries of its pages are those of the start. -/
theorem kernel_half_kept {mm : Mm} (guarded : mm.Guarded) {s : UserMemory}
    (reached : Reachable (MemoryStart mm) (Restricted StaysInUserHalf MemoryStep) s) :
    (∀ index, 768 ≤ index → index < 1024 → s.mm.pde index = mm.pde index) ∧
      ∀ virt, KernelPage virt → s.mm.entry virt = mm.entry virt := by
  have invariant : s.Sound ∧ Confined mm s.mm := by
    refine reached.invariant (fun s => s.Sound ∧ Confined mm s.mm) ?_ ?_
    · rintro s ⟨pid, rfl⟩
      exact ⟨⟨guarded, show userMmapStart % 4096 = 0 by decide⟩, Confined.refl guarded⟩
    · rintro s call after ⟨sound, confined⟩ ⟨stays, rfl⟩
      obtain ⟨next, step⟩ := sound.call stays
      exact ⟨next, confined.trans step⟩
  exact ⟨invariant.2.kernel.directory, fun virt kernel =>
    invariant.2.entry_eq guarded.toTablesSound kernel⟩

theorem bootMm_guarded {pmm : Pmm} {directory table : Nat} (memory : pmm.totalFrames ≤ 1048576)
    (directoryBound : directory < 1048576) (tableBound : table < 1048576)
    (apart : directory ≠ table) (nonzero : directory ≠ 0 ∧ table ≠ 0)
    (reserved : pmm.bitmapTest directory = true ∧ pmm.bitmapTest table = true) :
    (bootMm pmm directory table).Guarded := by
  refine ⟨bootMm_sound pmm directoryBound tableBound apart, ?_, memory⟩
  intro index _ present
  rcases bootMm_slots pmm directoryBound tableBound present with ⟨_, frame⟩ | ⟨_, frame⟩
  · rw [frame]
    exact ⟨nonzero.1, reserved.1⟩
  · rw [frame]
    exact ⟨nonzero.2, reserved.2⟩

def smallMemory : UserMemory := .start (bootMm (pmmInit ⟨1, 64⟩ 0x100000) 5 6) (some 1)

theorem kernel_half_kept_small :
    let s := ((smallMemory.call (.shmget 7 4096)).call (.shmat 0 0x50000000)).call
      (.mmap 0 4096 3 0x20)
    s.mm.entry 0xC0100000 = smallMemory.mm.entry 0xC0100000 := by
  have guarded : smallMemory.mm.Guarded := bootMm_guarded (by decide) (by decide) (by decide)
    (by decide) (by decide) (by decide)
  have step : ∀ {s : UserMemory} (call : MemoryCall),
      Reachable (MemoryStart smallMemory.mm) (Restricted StaysInUserHalf MemoryStep) s →
        StaysInUserHalf s call → Reachable (MemoryStart smallMemory.mm)
          (Restricted StaysInUserHalf MemoryStep) (s.call call) :=
    fun call reached stays => reached.next ⟨stays, rfl⟩
  refine (kernel_half_kept guarded (step _ (step _ (step _ (.start ⟨some 1, rfl⟩) ?_) ?_) ?_)).2
    0xC0100000 ⟨by decide, by decide, by decide⟩
  · exact Or.inl (by decide)
  · intro _
    decide
  · exact Or.inl (by decide)

/-- `shmat` maps a region over the kernel's own page. -/
theorem shmat_over_kernel :
    let s := smallMemory.call (.shmget 7 4096)
    KernelPage 0xC0100000 ∧
      (s.call (.shmat 0 0xC0100000)).mm.entry 0xC0100000 ≠ s.mm.entry 0xC0100000 := by
  refine ⟨⟨by decide, by decide, by decide⟩, by decide⟩

end ZurichOS
