import ZurichOS.Pmm
import ZurichOS.VmmCore

set_option linter.all false

/-!
The page-table code as a partial map from pages to physical pages.  One lemma says
what a map or unmap call does to the directory and the tables; the map view and
its histories follow from it.
-/

namespace ZurichOS

open Words

theorem pdIndex_eq (virt : Nat) : pdIndex virt = virt / 4194304 % 1024 := by
  rw [pdIndex, and_indexMask, Nat.shiftRight_eq_div_pow]

theorem ptIndex_eq (virt : Nat) : ptIndex virt = virt / 4096 % 1024 := by
  rw [ptIndex, and_indexMask, Nat.shiftRight_eq_div_pow]

theorem pdIndex_lt (virt : Nat) : pdIndex virt < 1024 := by
  rw [pdIndex_eq]
  omega

theorem ptIndex_lt (virt : Nat) : ptIndex virt < 1024 := by
  rw [ptIndex_eq]
  omega

/-! Entries: flag bits do not reach the frame number, nor the frame the present bit. -/

theorem and_pageMask_of_low {low : Nat} (bound : low < 4096) : low &&& 0xFFFFF000 = 0 := by
  rw [and_pageMask (by omega)]
  omega

theorem frameOf_or_low (entry low : Nat) (bound : low < 4096) :
    frameOf (entry ||| low) = frameOf entry := by
  rw [frameOf, frameOf, Nat.and_or_distrib_right, and_pageMask_of_low bound, Nat.or_zero]

theorem and_pageUser_lt (flags : Nat) : flags &&& pageUser < 4096 :=
  Nat.lt_of_le_of_lt Nat.and_le_right (by decide)

theorem or_present (entry : Nat) : (entry ||| pagePresent) &&& pagePresent ≠ 0 := by
  rw [Nat.and_or_distrib_right, Nat.and_self]
  intro zero
  exact absurd (Nat.or_eq_zero_iff.mp zero).2 (by decide)

theorem tableEntry_present (phys flags : Nat) : tableEntry phys flags &&& pagePresent ≠ 0 :=
  or_present _

theorem tableEntry_page (phys flags : Nat) :
    tableEntry phys flags &&& 0xFFFFF000 = phys &&& 0xFFFFF000 := by
  have offsetLow : flags &&& 0xFFF < 4096 := by
    rw [and_offsetMask]
    omega
  rw [tableEntry, Nat.and_or_distrib_right, Nat.and_or_distrib_right, Nat.and_assoc,
    Nat.and_self, and_pageMask_of_low offsetLow,
    and_pageMask_of_low (show pagePresent < 4096 by decide), Nat.or_zero, Nat.or_zero]

theorem frameOf_link (ptPhys flags : Nat) :
    frameOf (ptPhys ||| pagePresent ||| pageWrite ||| (flags &&& pageUser)) =
      frameOf ptPhys := by
  rw [frameOf_or_low _ _ (and_pageUser_lt flags), frameOf_or_low _ _ (by decide),
    frameOf_or_low _ _ (by decide)]

theorem link_present (ptPhys flags : Nat) :
    (ptPhys ||| pagePresent ||| pageWrite ||| (flags &&& pageUser)) &&& pagePresent ≠ 0 := by
  rw [Nat.and_or_distrib_right, Nat.and_or_distrib_right]
  intro zero
  exact or_present ptPhys (Nat.or_eq_zero_iff.mp (Nat.or_eq_zero_iff.mp zero).1).1

theorem openUser_present (entry : Nat) :
    (entry ||| pageUser) &&& pagePresent = entry &&& pagePresent := by
  have apart : pageUser &&& pagePresent = 0 := by decide
  rw [Nat.and_or_distrib_right, apart, Nat.or_zero]

theorem frameOf_page (frame : Nat) (bound : frame < 1048576) :
    frameOf (frame * 4096) = frame := by
  rw [frameOf, and_pageMask (by omega)]
  omega

namespace Mm

def HasTable (m : Mm) (index : Nat) : Prop := m.pde index &&& pagePresent ≠ 0

instance (m : Mm) (index : Nat) : Decidable (m.HasTable index) :=
  inferInstanceAs (Decidable (_ ≠ _))

def pte (m : Mm) (index slot : Nat) : Nat := m.phys (frameOf (m.pde index)) slot

def entry (m : Mm) (virt : Nat) : Nat :=
  if m.HasTable (pdIndex virt) then m.pte (pdIndex virt) (ptIndex virt) else 0

/-- The recursive slot shows the directory itself, and no frame serves as two tables. -/
structure TablesSound (m : Mm) : Prop where
  recursive : frameOf (m.pde recursivePdIndex) = m.cr3 / 4096
  present : m.HasTable recursivePdIndex
  separate : ∀ first < 1024, ∀ second < 1024, m.HasTable first → m.HasTable second →
    frameOf (m.pde first) = frameOf (m.pde second) → first = second

def FreshTable (m : Mm) (frame : Nat) : Prop :=
  ∀ index < 1024, m.HasTable index → frameOf (m.pde index) ≠ frame

variable {m : Mm}

theorem TablesSound.getPt_eq (sound : m.TablesSound) {index : Nat} (bound : index < 1024) :
    m.getPt index = frameOf (m.pde index) := by
  have slot : pdIndex (0xFFC00000 + index * 4096) = 1023 := by
    rw [pdIndex_eq]
    omega
  have offset : ptIndex (0xFFC00000 + index * 4096) = index := by
    rw [ptIndex_eq]
    omega
  rw [getPt, mmuFrame, slot, offset, sound.recursive]
  rfl

theorem TablesSound.getPd_eq (sound : m.TablesSound) : m.getPd = m.cr3 / 4096 := by
  have window := sound.getPt_eq (show recursivePdIndex < 1024 by decide)
  rw [← sound.recursive, ← window]
  rfl

theorem TablesSound.pd_read (sound : m.TablesSound) (index : Nat) :
    m.phys m.getPd index = m.pde index := by
  rw [sound.getPd_eq]
  rfl

theorem vmmIsMapped_eq (sound : m.TablesSound) (virt : Nat) :
    vmmIsMapped m virt = (m.entry virt &&& pagePresent != 0) := by
  rw [vmmIsMapped, sound.pd_read, sound.getPt_eq (pdIndex_lt virt)]
  by_cases absent : m.pde (pdIndex virt) &&& pagePresent = 0
  · simp [entry, HasTable, absent]
  · simp only [entry, HasTable, pte, ne_eq, absent, not_false_eq_true, if_true, if_false]

theorem vmmGetPhysical_eq (sound : m.TablesSound) (virt : Nat) :
    vmmGetPhysical m virt =
      if m.entry virt &&& pagePresent = 0 then 0
      else (m.entry virt &&& 0xFFFFF000) ||| (virt &&& 0xFFF) := by
  rw [vmmGetPhysical, sound.pd_read, sound.getPt_eq (pdIndex_lt virt)]
  by_cases absent : m.pde (pdIndex virt) &&& pagePresent = 0
  · simp [entry, HasTable, absent]
  · simp only [entry, HasTable, pte, ne_eq, absent, not_false_eq_true, if_true, if_false]

/-! Edits of one directory slot or one table entry. -/

theorem pde_write_directory (m : Mm) (index value other : Nat) :
    (m.write (m.cr3 / 4096) index value).pde other =
      if other = index then value else m.pde other := by
  simp [pde, write]

theorem pde_write_other (m : Mm) {frame : Nat} (apart : frame ≠ m.cr3 / 4096)
    (slot value index : Nat) : (m.write frame slot value).pde index = m.pde index := by
  simp [pde, write, Ne.symm apart]

theorem TablesSound.table_ne_directory (sound : m.TablesSound) {index : Nat}
    (bound : index < 1024) (user : index ≠ recursivePdIndex) (table : m.HasTable index) :
    frameOf (m.pde index) ≠ m.cr3 / 4096 := by
  intro same
  exact user (sound.separate index bound recursivePdIndex (by decide) table sound.present
    (same.trans sound.recursive.symm))

theorem TablesSound.congr {after : Mm} (sound : m.TablesSound) (cr3 : after.cr3 = m.cr3)
    (directory : ∀ index, after.pde index = m.pde index) : after.TablesSound := by
  refine ⟨?_, ?_, ?_⟩
  · rw [directory, cr3, sound.recursive]
  · simpa [HasTable, directory] using sound.present
  · simpa [HasTable, directory] using sound.separate

/-- `after` is `m` with the table entry of one address set, its table being created
where there was none; every other table and directory slot is as before. -/
structure SetsEntry (m after : Mm) (virt value : Nat) : Prop where
  sound : after.TablesSound
  cr3 : after.cr3 = m.cr3
  directory : ∀ index, index ≠ pdIndex virt → after.pde index = m.pde index
  linked : after.HasTable (pdIndex virt)
  kept : m.HasTable (pdIndex virt) →
    frameOf (after.pde (pdIndex virt)) = frameOf (m.pde (pdIndex virt))
  created : ¬m.HasTable (pdIndex virt) →
    frameOf (after.pde (pdIndex virt)) = (pmmAllocFrame m.pmm).1 / 4096
  tables : ∀ index < 1024, index ≠ recursivePdIndex → index ≠ pdIndex virt →
    m.HasTable index → ∀ slot, after.pte index slot = m.pte index slot
  own : ∀ slot < 1024, after.pte (pdIndex virt) slot =
    if slot = ptIndex virt then value
    else if m.HasTable (pdIndex virt) then m.pte (pdIndex virt) slot else 0

theorem TablesSound.setsEntry_write (sound : m.TablesSound) {virt : Nat}
    (user : pdIndex virt ≠ recursivePdIndex) (table : m.HasTable (pdIndex virt)) (value : Nat) :
    SetsEntry m (m.write (frameOf (m.pde (pdIndex virt))) (ptIndex virt) value) virt value := by
  have bound := pdIndex_lt virt
  have apart := sound.table_ne_directory bound user table
  have directory : ∀ index, (m.write (frameOf (m.pde (pdIndex virt))) (ptIndex virt) value).pde
      index = m.pde index := fun index => pde_write_other m apart _ _ _
  refine ⟨sound.congr rfl directory, rfl, fun index _ => directory index, ?_, ?_,
    fun absent => absurd table absent, ?_, ?_⟩
  · simpa [HasTable, directory] using table
  · intro _
    rw [directory]
  · intro index indexBound _ other present slot
    have frames : frameOf (m.pde index) ≠ frameOf (m.pde (pdIndex virt)) := fun same =>
      other (sound.separate index indexBound _ bound present table same)
    rw [pte, directory]
    simp [write, frames, pte]
  · intro slot _
    rw [pte, directory]
    simp [write, table, pte]

theorem TablesSound.openUser (sound : m.TablesSound) (index : Nat) :
    let opened := m.write (m.cr3 / 4096) index (m.pde index ||| pageUser)
    opened.TablesSound ∧ (∀ other, opened.HasTable other ↔ m.HasTable other) ∧
      ∀ other, frameOf (opened.pde other) = frameOf (m.pde other) := by
  intro opened
  have frames : ∀ other, frameOf (opened.pde other) = frameOf (m.pde other) := by
    intro other
    rw [pde_write_directory]
    split
    · rename_i same
      rw [frameOf_or_low _ _ (by decide), same]
    · rfl
  have tables : ∀ other, opened.HasTable other ↔ m.HasTable other := by
    intro other
    rw [HasTable, HasTable, pde_write_directory]
    split
    · rename_i same
      rw [openUser_present, same]
    · rfl
  refine ⟨⟨?_, ?_, ?_⟩, tables, frames⟩
  · rw [frames]
    exact sound.recursive
  · exact (tables _).mpr sound.present
  · intro first firstBound second secondBound firstTable secondTable same
    rw [frames, frames] at same
    exact sound.separate first firstBound second secondBound ((tables _).mp firstTable)
      ((tables _).mp secondTable) same

theorem TablesSound.linkTable (sound : m.TablesSound) {index value frame : Nat}
    (bound : index < 1024) (absent : ¬m.HasTable index) (fresh : m.FreshTable frame)
    (frameEq : frameOf value = frame) :
    let linked := m.write (m.cr3 / 4096) index value
    let cleared := linked.clearTable frame
    linked.getPt index = frame ∧ cleared.TablesSound ∧
      (∀ other, cleared.pde other = if other = index then value else m.pde other) ∧
      (∀ slot < 1024, cleared.pte index slot = 0) ∧
      (∀ other, other < 1024 → other ≠ recursivePdIndex → m.HasTable other →
        ∀ slot, cleared.pte other slot = m.pte other slot) := by
  intro linked cleared
  have user : index ≠ recursivePdIndex := fun same => absent (same ▸ sound.present)
  have offDirectory : frame ≠ m.cr3 / 4096 := fun same =>
    fresh recursivePdIndex (by decide) sound.present (sound.recursive.trans same.symm)
  have directory : ∀ other, linked.pde other = if other = index then value else m.pde other :=
    fun other => pde_write_directory m index value other
  have clearedDirectory : ∀ other, cleared.pde other = linked.pde other := by
    intro other
    simp [cleared, linked, clearTable, pde, write, Ne.symm offDirectory]
  have linkedSound : linked.TablesSound := by
    refine ⟨?_, ?_, ?_⟩
    · rw [directory, if_neg (Ne.symm user)]
      exact sound.recursive
    · rw [HasTable, directory, if_neg (Ne.symm user)]
      exact sound.present
    · intro first firstBound second secondBound firstTable secondTable same
      rw [HasTable, directory] at firstTable secondTable
      rw [directory, directory] at same
      by_cases firstNew : first = index
      · by_cases secondNew : second = index
        · rw [firstNew, secondNew]
        · rw [if_pos firstNew, if_neg secondNew, frameEq] at same
          rw [if_neg secondNew] at secondTable
          exact absurd same.symm (fresh second secondBound secondTable)
      · by_cases secondNew : second = index
        · rw [if_neg firstNew, if_pos secondNew, frameEq] at same
          rw [if_neg firstNew] at firstTable
          exact absurd same (fresh first firstBound firstTable)
        · rw [if_neg firstNew, if_neg secondNew] at same
          rw [if_neg firstNew] at firstTable
          rw [if_neg secondNew] at secondTable
          exact sound.separate first firstBound second secondBound firstTable secondTable same
  refine ⟨?_, linkedSound.congr rfl clearedDirectory, ?_, ?_, ?_⟩
  · rw [linkedSound.getPt_eq bound, directory, if_pos rfl, frameEq]
  · intro other
    rw [clearedDirectory, directory]
  · intro slot slotBound
    rw [pte, clearedDirectory, directory, if_pos rfl, frameEq]
    simp [cleared, clearTable, slotBound]
  · intro other otherBound otherUser table slot
    have apart : other ≠ index := fun same => absent (same ▸ table)
    have offTable := fresh other otherBound table
    have offPd := sound.table_ne_directory otherBound otherUser table
    rw [pte, clearedDirectory, directory, if_neg apart]
    simp [cleared, linked, clearTable, write, offTable, offPd, pte]

end Mm

open Mm

theorem frameOf_allocFrame (pmm : Pmm) :
    frameOf (pmmAllocFrame pmm).1 = (pmmAllocFrame pmm).1 / 4096 := by
  rcases pmmAllocFrame_cases pmm with same | ⟨frame, _, _, same⟩
  · simp [same, frameOf]
  · rw [same, frameOf, and_pageMask (u32_lt _)]
    omega

theorem frameOf_tableEntry (pmm : Pmm) (flags : Nat) :
    frameOf (tableEntry (pmmAllocFrame pmm).1 flags) = (pmmAllocFrame pmm).1 / 4096 := by
  rw [frameOf, tableEntry_page, ← frameOf, frameOf_allocFrame]

variable {m : Mm}

theorem vmmMapPage_present (sound : m.TablesSound) {virt : Nat} (phys flags : Nat)
    (table : m.HasTable (pdIndex virt)) :
    vmmMapPage m virt phys flags =
      let opened :=
        if flags &&& pageUser ≠ 0 then
          m.write (m.cr3 / 4096) (pdIndex virt) (m.pde (pdIndex virt) ||| pageUser)
        else m
      opened.write (opened.getPt (pdIndex virt)) (ptIndex virt) (tableEntry phys flags) := by
  unfold vmmMapPage
  rw [sound.getPd_eq]
  exact if_neg table

theorem vmmMapPage_absent (sound : m.TablesSound) {virt : Nat} (phys flags : Nat)
    (absent : ¬m.HasTable (pdIndex virt)) (success : (pmmAllocFrame m.pmm).1 ≠ 0) :
    vmmMapPage m virt phys flags =
      let taken : Mm := { m with pmm := (pmmAllocFrame m.pmm).2 }
      let linked := taken.write (taken.cr3 / 4096) (pdIndex virt)
        ((pmmAllocFrame m.pmm).1 ||| pagePresent ||| pageWrite ||| (flags &&& pageUser))
      let cleared := linked.clearTable (linked.getPt (pdIndex virt))
      cleared.write (cleared.getPt (pdIndex virt)) (ptIndex virt) (tableEntry phys flags) := by
  unfold vmmMapPage
  rw [sound.getPd_eq]
  exact (if_pos (Decidable.of_not_not absent)).trans (if_neg success)

/-- The entry is written through a table that is opened to the user first. -/
theorem Mm.TablesSound.setsEntry_openUser (sound : m.TablesSound) {virt : Nat}
    (user : pdIndex virt ≠ recursivePdIndex) (table : m.HasTable (pdIndex virt)) (value : Nat) :
    let opened := m.write (m.cr3 / 4096) (pdIndex virt) (m.pde (pdIndex virt) ||| pageUser)
    SetsEntry m (opened.write (opened.getPt (pdIndex virt)) (ptIndex virt) value) virt value := by
  have bound := pdIndex_lt virt
  dsimp only
  obtain ⟨opened, tables, frames⟩ := sound.openUser (pdIndex virt)
  rw [opened.getPt_eq bound]
  have set := opened.setsEntry_write user ((tables _).mpr table) value
  have others : ∀ index, index ≠ pdIndex virt →
      (m.write (m.cr3 / 4096) (pdIndex virt) (m.pde (pdIndex virt) ||| pageUser)).pde index =
        m.pde index := by
    intro index apart
    rw [pde_write_directory, if_neg apart]
  have contents : ∀ index < 1024, index ≠ recursivePdIndex → m.HasTable index → ∀ slot,
      (m.write (m.cr3 / 4096) (pdIndex virt) (m.pde (pdIndex virt) ||| pageUser)).pte
        index slot = m.pte index slot := by
    intro index indexBound indexUser indexTable slot
    have offPd := sound.table_ne_directory indexBound indexUser indexTable
    rw [pte, frames]
    simp [write, offPd, pte]
  refine ⟨set.sound, set.cr3, ?_, set.linked, ?_, fun absent => absurd table absent, ?_, ?_⟩
  · intro index apart
    rw [set.directory index apart, others index apart]
  · intro _
    rw [set.kept ((tables _).mpr table), frames]
  · intro index indexBound indexUser apart indexTable slot
    rw [set.tables index indexBound indexUser apart ((tables _).mpr indexTable) slot,
      contents index indexBound indexUser indexTable slot]
  · intro slot slotBound
    rw [set.own slot slotBound, if_pos ((tables _).mpr table), if_pos table,
      contents _ bound user table slot]

/-- The entry is written through a new table. -/
theorem vmmMapPage_linked (sound : m.TablesSound) {virt : Nat}
    (user : pdIndex virt ≠ recursivePdIndex) (phys flags : Nat)
    (table : ¬m.HasTable (pdIndex virt)) (success : (pmmAllocFrame m.pmm).1 ≠ 0)
    (freshFrame : m.FreshTable ((pmmAllocFrame m.pmm).1 / 4096)) :
    SetsEntry m (vmmMapPage m virt phys flags) virt (tableEntry phys flags) := by
  have bound := pdIndex_lt virt
  rw [vmmMapPage_absent sound phys flags table success]
  -- The allocator is the only other component that changes.
  let taken : Mm := { m with pmm := (pmmAllocFrame m.pmm).2 }
  have takenSound : taken.TablesSound := sound.congr rfl fun _ => rfl
  generalize valueEq : (pmmAllocFrame m.pmm).1 ||| pagePresent ||| pageWrite |||
    (flags &&& pageUser) = value
  have valueFrame : frameOf value = (pmmAllocFrame m.pmm).1 / 4096 := by
    rw [← valueEq, frameOf_link, frameOf_allocFrame]
  have valuePresent : value &&& pagePresent ≠ 0 := valueEq ▸ link_present _ _
  obtain ⟨window, clearedSound, directory, zeroed, others⟩ :=
    takenSound.linkTable bound table freshFrame valueFrame
  let linked := taken.write (taken.cr3 / 4096) (pdIndex virt) value
  let cleared := linked.clearTable ((pmmAllocFrame m.pmm).1 / 4096)
  change SetsEntry m ((linked.clearTable (linked.getPt (pdIndex virt))).write
    ((linked.clearTable (linked.getPt (pdIndex virt))).getPt (pdIndex virt)) _ _) virt _
  rw [window]
  change SetsEntry m (cleared.write (cleared.getPt (pdIndex virt)) _ _) virt _
  rw [clearedSound.getPt_eq bound]
  have has : ∀ index, index ≠ pdIndex virt → (cleared.HasTable index ↔ m.HasTable index) := by
    intro index apart
    rw [HasTable, HasTable, directory, if_neg apart]
    rfl
  have present : cleared.HasTable (pdIndex virt) := by
    rw [HasTable, directory, if_pos rfl]
    exact valuePresent
  have set := clearedSound.setsEntry_write user present (tableEntry phys flags)
  refine ⟨set.sound, set.cr3, ?_, set.linked, fun has => absurd has table, ?_, ?_, ?_⟩
  · intro index apart
    rw [set.directory index apart, directory, if_neg apart]
    rfl
  · intro _
    rw [set.kept present, directory, if_pos rfl, valueFrame]
  · intro index indexBound indexUser apart indexTable slot
    rw [set.tables index indexBound indexUser apart ((has index apart).mpr indexTable) slot,
      others index indexBound indexUser indexTable slot]
    rfl
  · intro slot slotBound
    rw [set.own slot slotBound, if_pos present, zeroed slot slotBound, if_neg table]

/-- A map call writes the entry of its address and nothing else a lookup can see. -/
theorem vmmMapPage_setsEntry (sound : m.TablesSound) {virt : Nat}
    (user : pdIndex virt ≠ recursivePdIndex) (phys flags : Nat)
    (fresh : ¬m.HasTable (pdIndex virt) → (pmmAllocFrame m.pmm).1 ≠ 0 ∧
      m.FreshTable ((pmmAllocFrame m.pmm).1 / 4096)) :
    SetsEntry m (vmmMapPage m virt phys flags) virt (tableEntry phys flags) := by
  by_cases table : m.HasTable (pdIndex virt)
  · rw [vmmMapPage_present sound phys flags table]
    dsimp only
    split
    · exact sound.setsEntry_openUser user table _
    · rw [sound.getPt_eq (pdIndex_lt virt)]
      exact sound.setsEntry_write user table _
  · obtain ⟨success, freshFrame⟩ := fresh table
    exact vmmMapPage_linked sound user phys flags table success freshFrame

theorem vmmMapPage_failed (sound : m.TablesSound) {virt : Nat} (phys flags : Nat)
    (absent : ¬m.HasTable (pdIndex virt)) (failed : (pmmAllocFrame m.pmm).1 = 0) :
    vmmMapPage m virt phys flags = { m with pmm := (pmmAllocFrame m.pmm).2 } := by
  unfold vmmMapPage
  rw [sound.getPd_eq]
  exact (if_pos (Decidable.of_not_not absent)).trans (if_pos failed)

theorem vmmMapPage_pmm (sound : m.TablesSound) (virt phys flags : Nat) :
    (vmmMapPage m virt phys flags).pmm =
      if m.HasTable (pdIndex virt) then m.pmm else (pmmAllocFrame m.pmm).2 := by
  by_cases table : m.HasTable (pdIndex virt)
  · rw [vmmMapPage_present sound phys flags table, if_pos table]
    dsimp only
    split <;> rfl
  · rw [if_neg table]
    by_cases failed : (pmmAllocFrame m.pmm).1 = 0
    · rw [vmmMapPage_failed sound phys flags table failed]
    · rw [vmmMapPage_absent sound phys flags table failed]
      rfl

theorem vmmMapPage_keeps {frame : Nat} (used : m.pmm.bitmapTest frame = true)
    (virt phys flags : Nat) :
    (vmmMapPage m virt phys flags).pmm.bitmapTest frame = true := by
  unfold vmmMapPage
  dsimp only
  split
  · split
    · exact allocFrame_keeps used
    · exact allocFrame_keeps used
  · split
    · exact used
    · exact used

theorem vmmUnmapPage_setsEntry (sound : m.TablesSound) {virt : Nat}
    (user : pdIndex virt ≠ recursivePdIndex) (table : m.HasTable (pdIndex virt)) :
    SetsEntry m (vmmUnmapPage m virt) virt 0 := by
  rw [vmmUnmapPage, sound.pd_read, if_neg table, sound.getPt_eq (pdIndex_lt virt)]
  exact sound.setsEntry_write user table 0

theorem vmmUnmapPage_absent (sound : m.TablesSound) {virt : Nat}
    (absent : ¬m.HasTable (pdIndex virt)) : vmmUnmapPage m virt = m := by
  rw [vmmUnmapPage, sound.pd_read, if_pos (Decidable.of_not_not absent)]

theorem vmmUnmapPage_pmm (m : Mm) (virt : Nat) : (vmmUnmapPage m virt).pmm = m.pmm := by
  unfold vmmUnmapPage
  split <;> rfl

/-! The tables at boot. -/

theorem bootMm_pde (pmm : Pmm) (directory table index : Nat) :
    (bootMm pmm directory table).pde index =
      if index = recursivePdIndex then directory * 4096 ||| pagePresent ||| pageWrite
      else if index = 768 then table * 4096 + 3 else 0 := by
  have base : directory * 4096 / 4096 = directory := by omega
  simp only [bootMm, vmmInit, Mm.pde, Mm.write, base, bootMemory]
  by_cases recursiveSlot : index = recursivePdIndex <;> simp [recursiveSlot]

theorem frameOf_bootDirectory {directory : Nat} (bound : directory < 1048576) :
    frameOf (directory * 4096 ||| pagePresent ||| pageWrite) = directory := by
  rw [frameOf_or_low _ _ (by decide), frameOf_or_low _ _ (by decide), frameOf_page directory bound]

theorem bootMm_slots (pmm : Pmm) {directory table : Nat} (directoryBound : directory < 1048576)
    (tableBound : table < 1048576) {index : Nat}
    (present : (bootMm pmm directory table).HasTable index) :
    index = recursivePdIndex ∧ frameOf ((bootMm pmm directory table).pde index) = directory ∨
      index = 768 ∧ frameOf ((bootMm pmm directory table).pde index) = table := by
  have tableFrame : frameOf (table * 4096 + 3) = table := by
    rw [← page_or table 3 (by omega), frameOf_or_low _ _ (by omega),
      frameOf_page table tableBound]
  rw [Mm.HasTable, bootMm_pde] at present
  rw [bootMm_pde]
  by_cases recursiveSlot : index = recursivePdIndex
  · exact Or.inl ⟨recursiveSlot, by
      rw [if_pos recursiveSlot, frameOf_bootDirectory directoryBound]⟩
  · by_cases kernelSlot : index = 768
    · exact Or.inr ⟨kernelSlot, by rw [if_neg recursiveSlot, if_pos kernelSlot, tableFrame]⟩
    · simp [recursiveSlot, kernelSlot] at present

theorem bootMm_sound (pmm : Pmm) {directory table : Nat} (directoryBound : directory < 1048576)
    (tableBound : table < 1048576) (apart : directory ≠ table) :
    (bootMm pmm directory table).TablesSound := by
  refine ⟨?_, ?_, ?_⟩
  · rw [bootMm_pde, if_pos rfl, frameOf_bootDirectory directoryBound]
    simp [bootMm, vmmInit, Mm.write]
  · rw [Mm.HasTable, bootMm_pde, if_pos rfl, Nat.and_or_distrib_right]
    intro zero
    exact or_present _ (Nat.or_eq_zero_iff.mp zero).1
  · intro first _ second _ firstTable secondTable same
    rcases bootMm_slots pmm directoryBound tableBound firstTable with
        ⟨firstSlot, firstFrame⟩ | ⟨firstSlot, firstFrame⟩ <;>
      rcases bootMm_slots pmm directoryBound tableBound secondTable with
        ⟨secondSlot, secondFrame⟩ | ⟨secondSlot, secondFrame⟩
    · rw [firstSlot, secondSlot]
    · exact absurd (firstFrame.symm.trans (same.trans secondFrame)) apart
    · exact absurd (firstFrame.symm.trans (same.trans secondFrame)).symm apart
    · rw [firstSlot, secondSlot]

/-! The map view: what lookups see, and what histories of calls do to it. -/

namespace Mm

theorem pageOf_eq_iff (first second : Nat) :
    pageOf first = pageOf second ↔
      pdIndex first = pdIndex second ∧ ptIndex first = ptIndex second := by
  have mask (value : Nat) : value &&& 0xFFFFF = value % 1048576 :=
    Nat.and_two_pow_sub_one_eq_mod value 20
  rw [pageOf, pageOf, mask, mask, Nat.shiftRight_eq_div_pow, Nat.shiftRight_eq_div_pow,
    pdIndex_eq, pdIndex_eq, ptIndex_eq, ptIndex_eq]
  omega

theorem SetsEntry.entry_eq {after : Mm} {virt value : Nat} (set : SetsEntry m after virt value)
    {other : Nat} (user : pdIndex other ≠ recursivePdIndex) :
    after.entry other = if pageOf other = pageOf virt then value else m.entry other := by
  simp only [pageOf_eq_iff]
  by_cases shared : pdIndex other = pdIndex virt
  · rw [entry, shared, if_pos set.linked, set.own _ (ptIndex_lt other)]
    by_cases slot : ptIndex other = ptIndex virt
    · simp [slot]
    · simp [slot, entry, shared]
  · have apart : ¬(pdIndex other = pdIndex virt ∧ ptIndex other = ptIndex virt) :=
      fun both => shared both.1
    have same : after.HasTable (pdIndex other) ↔ m.HasTable (pdIndex other) := by
      rw [HasTable, HasTable, set.directory _ shared]
    rw [if_neg apart, entry, entry]
    by_cases table : m.HasTable (pdIndex other)
    · rw [if_pos table, if_pos (same.mpr table),
        set.tables _ (pdIndex_lt other) user shared table]
    · rw [if_neg table, if_neg fun has => table (same.mp has)]

def mapping (m : Mm) (virt : Nat) : Option Nat :=
  if m.entry virt &&& pagePresent = 0 then none else some (m.entry virt &&& 0xFFFFF000)

theorem vmmIsMapped_mapping (sound : m.TablesSound) (virt : Nat) :
    vmmIsMapped m virt = (m.mapping virt).isSome := by
  rw [vmmIsMapped_eq sound, mapping]
  by_cases absent : m.entry virt &&& pagePresent = 0
  · rw [if_pos absent, absent]
    rfl
  · rw [if_neg absent]
    exact bne_iff_ne.mpr absent

theorem vmmGetPhysical_mapping (sound : m.TablesSound) (virt : Nat) :
    vmmGetPhysical m virt =
      match m.mapping virt with
      | some page => page + virt % 4096
      | none => 0 := by
  rw [vmmGetPhysical_eq sound, mapping]
  by_cases absent : m.entry virt &&& pagePresent = 0
  · simp [absent]
  · have low : virt &&& 0xFFF < 4096 := by
      rw [and_offsetMask]
      omega
    have aligned (word : Nat) : word &&& 0xFFFFF000 = (word &&& 0xFFFFF000) / 4096 * 4096 := by
      have bound : word &&& 0xFFFFF000 < 4294967296 :=
        Nat.lt_of_le_of_lt Nat.and_le_right (by decide)
      rw [← and_pageMask bound, Nat.and_assoc, Nat.and_self]
    simp only [absent, if_false]
    rw [aligned, page_or _ _ low, and_offsetMask]

theorem mapping_tableEntry {after : Mm} {virt phys flags : Nat}
    (set : SetsEntry m after virt (tableEntry phys flags)) {other : Nat}
    (user : pdIndex other ≠ recursivePdIndex) :
    after.mapping other =
      if pageOf other = pageOf virt then some (phys &&& 0xFFFFF000) else m.mapping other := by
  rw [mapping, set.entry_eq user]
  by_cases same : pageOf other = pageOf virt
  · simp only [same, if_true]
    rw [if_neg (tableEntry_present phys flags), tableEntry_page]
  · simp [same, mapping]

theorem mapping_zero {after : Mm} {virt : Nat} (set : SetsEntry m after virt 0) {other : Nat}
    (user : pdIndex other ≠ recursivePdIndex) :
    after.mapping other = if pageOf other = pageOf virt then none else m.mapping other := by
  rw [mapping, set.entry_eq user]
  by_cases same : pageOf other = pageOf virt <;> simp [same, mapping]

/-- `pmm_alloc_frame` yields a fresh frame whenever the call needs a new table. -/
def FreshFor (m : Mm) : VmmCall → Prop
  | .mapPage virt _ _ => ¬m.HasTable (pdIndex virt) →
      (pmmAllocFrame m.pmm).1 ≠ 0 ∧ m.FreshTable ((pmmAllocFrame m.pmm).1 / 4096)
  | .unmapPage _ => True

def FreshRun : Mm → List VmmCall → Prop
  | _, [] => True
  | m, call :: rest => m.FreshFor call ∧ FreshRun (m.call call) rest

theorem TablesSound.call (sound : m.TablesSound) (call : VmmCall)
    (outside : pdIndex call.virt ≠ recursivePdIndex) (fresh : m.FreshFor call) :
    (m.call call).TablesSound ∧ ∀ virt, pdIndex virt ≠ recursivePdIndex →
      (m.call call).mapping virt =
        if pageOf virt = pageOf call.virt then call.target else m.mapping virt := by
  cases call with
  | mapPage virt phys flags =>
      have set := vmmMapPage_setsEntry sound outside phys flags fresh
      exact ⟨set.sound, fun other user => mapping_tableEntry set user⟩
  | unmapPage virt =>
      by_cases table : m.HasTable (pdIndex virt)
      · have set := vmmUnmapPage_setsEntry sound outside table
        exact ⟨set.sound, fun other user => mapping_zero set user⟩
      · have same : m.call (.unmapPage virt) = m := vmmUnmapPage_absent sound table
        rw [same]
        refine ⟨sound, fun other user => ?_⟩
        split
        · rename_i page
          have noTable : ¬m.HasTable (pdIndex other) := by
            rw [((pageOf_eq_iff _ _).mp page).1]
            exact table
          simp [mapping, entry, noTable, VmmCall.target]
        · rfl

/-- After a history a page maps what its last call left there, and what it mapped
before if the history has no call on it. -/
theorem TablesSound.run (sound : m.TablesSound) (calls : List VmmCall)
    (outside : ∀ call ∈ calls, pdIndex call.virt ≠ recursivePdIndex) (fresh : m.FreshRun calls) :
    (m.run calls).TablesSound ∧ ∀ virt, pdIndex virt ≠ recursivePdIndex →
      (m.run calls).mapping virt =
        match lastCall (pageOf virt) calls with
        | some call => call.target
        | none => m.mapping virt := by
  induction calls generalizing m with
  | nil => exact ⟨sound, fun _ _ => rfl⟩
  | cons call rest ih =>
      obtain ⟨nextSound, nextMapping⟩ := sound.call call (outside call (by simp)) fresh.1
      obtain ⟨finalSound, finalMapping⟩ := ih nextSound
        (fun later member => outside later (List.mem_cons_of_mem _ member)) fresh.2
      refine ⟨finalSound, fun virt user => ?_⟩
      change ((m.call call).run rest).mapping virt = _
      rw [finalMapping virt user, nextMapping virt user]
      simp only [lastCall, List.reverse_cons, List.find?_append]
      cases found : rest.reverse.find? fun later => pageOf later.virt == pageOf virt with
      | some later => simp
      | none =>
          by_cases page : pageOf virt = pageOf call.virt
          · simp [page]
          · simp [page, Ne.symm page]

end Mm

/-- Page tables as a partial map. Over any history of map and unmap calls outside the
recursive window, a page is mapped exactly when its last call was a map, to that
call's physical page; and a call never changes the lookups of another page. -/
theorem vmm_history_partial_map (m : Mm) (sound : m.TablesSound) (calls : List VmmCall)
    (outside : ∀ call ∈ calls, pdIndex call.virt ≠ recursivePdIndex) (fresh : m.FreshRun calls)
    (virt : Nat) (user : pdIndex virt ≠ recursivePdIndex) :
    let after := m.run calls
    (match lastCall (pageOf virt) calls with
      | some (.mapPage _ phys _) => vmmIsMapped after virt = true ∧
          vmmGetPhysical after virt = (phys &&& 0xFFFFF000) + virt % 4096
      | some (.unmapPage _) => vmmIsMapped after virt = false
      | none => vmmIsMapped after virt = vmmIsMapped m virt ∧
          vmmGetPhysical after virt = vmmGetPhysical m virt) ∧
    ∀ call, pdIndex call.virt ≠ recursivePdIndex → after.FreshFor call →
      pageOf call.virt ≠ pageOf virt →
      vmmIsMapped (after.call call) virt = vmmIsMapped after virt ∧
        vmmGetPhysical (after.call call) virt = vmmGetPhysical after virt := by
  intro after
  obtain ⟨afterSound, afterMapping⟩ := sound.run calls outside fresh
  have looked := afterMapping virt user
  constructor
  · rw [vmmIsMapped_mapping afterSound, vmmGetPhysical_mapping afterSound,
      vmmIsMapped_mapping sound, vmmGetPhysical_mapping sound, looked]
    cases lastCall (pageOf virt) calls with
    | none => exact ⟨rfl, rfl⟩
    | some call =>
        cases call with
        | mapPage _ phys _ => exact ⟨rfl, rfl⟩
        | unmapPage _ => rfl
  · intro call callOutside callFresh apart
    obtain ⟨nextSound, nextMapping⟩ := afterSound.call call callOutside callFresh
    have same : (after.call call).mapping virt = after.mapping virt := by
      rw [nextMapping virt user, if_neg (Ne.symm apart)]
    rw [vmmIsMapped_mapping nextSound, vmmIsMapped_mapping afterSound,
      vmmGetPhysical_mapping nextSound, vmmGetPhysical_mapping afterSound, same]
    exact ⟨rfl, rfl⟩

theorem vmm_history_partial_map_boot :
    let boot := bootMm (pmmInit ⟨1, 64⟩ 0x100000) 0x102 0x103
    vmmIsMapped (boot.run [.mapPage 0x40000000 0x180000 7]) 0x40000123 = true := by
  have absent : ¬(bootMm (pmmInit ⟨1, 64⟩ 0x100000) 0x102 0x103).HasTable
      (pdIndex 0x40000000) := by decide
  have frame : (pmmAllocFrame (bootMm (pmmInit ⟨1, 64⟩ 0x100000) 0x102 0x103).pmm).1 =
      0x101000 := by decide
  have fresh : (bootMm (pmmInit ⟨1, 64⟩ 0x100000) 0x102 0x103).FreshTable 0x101 := by
    intro index _ _
    rw [bootMm_pde]
    by_cases recursiveSlot : index = recursivePdIndex
    · rw [if_pos recursiveSlot]
      decide
    · by_cases kernelSlot : index = 768
      · rw [if_neg recursiveSlot, if_pos kernelSlot]
        decide
      · rw [if_neg recursiveSlot, if_neg kernelSlot]
        decide
  exact (vmm_history_partial_map _ (bootMm_sound _ (by decide) (by decide) (by decide))
    [.mapPage 0x40000000 0x180000 7] (by simpa [VmmCall.virt] using (by decide))
    ⟨fun _ => by rw [frame]; exact ⟨by decide, fresh⟩, trivial⟩ 0x40000123 (by decide)).1.1

end ZurichOS
