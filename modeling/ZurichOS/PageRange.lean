import ZurichOS.Frames

set_option linter.all false

/-!
Unmapping and reprotecting lists of pages anywhere below the last one.  A page of the
recursive window is the table of others: unmapping it takes those away, and giving a page
to the user changes the window's entry for its table.
-/

namespace ZurichOS

open Words

theorem pageOf_word {virt : Nat} (word : virt < 4294967296) : pageOf virt = virt / 4096 := by
  have mask (value : Nat) : value &&& 0xFFFFF = value % 1048576 :=
    Nat.and_two_pow_sub_one_eq_mod value 20
  rw [pageOf, mask, Nat.shiftRight_eq_div_pow]
  omega

theorem eq_of_pageOf {first second : Nat} (word : first < 4294967296) (other : second < 4294967296)
    (aligned : first % 4096 = 0) (whole : second % 4096 = 0) (same : pageOf first = pageOf second) :
    first = second := by
  rw [pageOf_word word, pageOf_word other] at same
  omega

namespace Mm

/-- The page of the window that shows the table of an address. -/
def tablePage (virt : Nat) : Nat := 0xFFC00 + pdIndex virt

theorem pageOf_split (virt : Nat) : pageOf virt = pdIndex virt * 1024 + ptIndex virt := by
  have mask (value : Nat) : value &&& 0xFFFFF = value % 1048576 :=
    Nat.and_two_pow_sub_one_eq_mod value 20
  rw [pageOf, mask, Nat.shiftRight_eq_div_pow, pdIndex_eq, ptIndex_eq]
  omega

theorem pageOf_eq_tablePage (page virt : Nat) :
    pageOf page = tablePage virt ↔ pdIndex page = recursivePdIndex ∧ ptIndex page = pdIndex virt := by
  have pageBound := pdIndex_lt page
  have slotBound := ptIndex_lt page
  have bound := pdIndex_lt virt
  rw [pageOf_split, tablePage]
  simp only [recursivePdIndex]
  omega

theorem pageOf_le_tablePage (virt : Nat) : pageOf virt ≤ tablePage virt := by
  have bound := pdIndex_lt virt
  have slotBound := ptIndex_lt virt
  rw [pageOf_split, tablePage]
  omega

variable {m : Mm}

theorem TablesSound.entry_window (sound : m.TablesSound) {virt : Nat}
    (window : pdIndex virt = recursivePdIndex) : m.entry virt = m.pde (ptIndex virt) := by
  rw [entry, window, if_pos sound.present, pte, sound.recursive]
  rfl

/-- A slot of the directory set to another value for the same table. -/
theorem TablesSound.relink (sound : m.TablesSound) {slot value : Nat} (table : m.HasTable slot)
    (bound : slot < 1024) (present : value &&& pagePresent ≠ 0)
    (frame : frameOf value = frameOf (m.pde slot)) :
    let after := m.write (m.cr3 / 4096) slot value
    after.TablesSound ∧ (∀ index, after.HasTable index ↔ m.HasTable index) ∧
      (∀ index, frameOf (after.pde index) = frameOf (m.pde index)) ∧
      ∀ virt, after.entry virt = if pageOf virt = 0xFFC00 + slot then value else m.entry virt := by
  intro after
  have frames : ∀ index, frameOf (after.pde index) = frameOf (m.pde index) := by
    intro index
    rw [pde_write_directory]
    split
    · rename_i same
      rw [frame, same]
    · rfl
  have tables : ∀ index, after.HasTable index ↔ m.HasTable index := by
    intro index
    rw [HasTable, pde_write_directory]
    split
    · rename_i same
      exact iff_of_true present (same ▸ table)
    · rfl
  have kept : after.TablesSound := by
    refine ⟨?_, (tables _).mpr sound.present, ?_⟩
    · rw [frames]
      exact sound.recursive
    · intro first firstBound second secondBound firstTable secondTable same
      rw [frames, frames] at same
      exact sound.separate first firstBound second secondBound ((tables _).mp firstTable)
        ((tables _).mp secondTable) same
  refine ⟨kept, tables, frames, fun virt => ?_⟩
  have pageSplit := pageOf_split virt
  have pdBound := pdIndex_lt virt
  have ptBound := ptIndex_lt virt
  by_cases window : pdIndex virt = recursivePdIndex
  · rw [kept.entry_window window, sound.entry_window window, pde_write_directory]
    refine if_congr ?_ rfl rfl
    simp only [recursivePdIndex] at window
    omega
  · have other : pageOf virt ≠ 0xFFC00 + slot := by
      simp only [recursivePdIndex] at window
      omega
    rw [if_neg other, entry, entry]
    refine if_ctx_congr (tables _) (fun linked => ?_) fun _ => rfl
    have offDirectory := sound.table_ne_directory pdBound window linked
    rw [pte, pte, frames]
    simp [after, write, offDirectory]

theorem TablesSound.writeEntry (sound : m.TablesSound) {page value : Nat}
    (table : m.HasTable (pdIndex page)) (regular : pdIndex page ≠ recursivePdIndex) :
    let after := m.write (frameOf (m.pde (pdIndex page))) (ptIndex page) value
    after.TablesSound ∧
      ∀ virt, after.entry virt = if pageOf virt = pageOf page then value else m.entry virt := by
  intro after
  have set := sound.setsEntry_write regular table value
  refine ⟨set.sound, fun virt => ?_⟩
  by_cases window : pdIndex virt = recursivePdIndex
  · have other : pageOf virt ≠ pageOf page := by
      intro same
      exact regular (((pageOf_eq_iff _ _).mp same).1.symm.trans window)
    have offDirectory := sound.table_ne_directory (pdIndex_lt page) regular table
    rw [if_neg other, set.sound.entry_window window, sound.entry_window window,
      pde_write_other m offDirectory]
  · exact set.entry_eq window

/-- A slot of the directory cleared: the table's pages go with it. -/
theorem TablesSound.unlink (sound : m.TablesSound) {slot : Nat} (below : slot ≠ recursivePdIndex) :
    let after := m.write (m.cr3 / 4096) slot 0
    after.TablesSound ∧ (∀ index, after.pde index = if index = slot then 0 else m.pde index) ∧
      ∀ virt, after.entry virt =
        if pageOf virt = 0xFFC00 + slot ∨ pdIndex virt = slot then 0 else m.entry virt := by
  intro after
  have directory : ∀ index, after.pde index = if index = slot then 0 else m.pde index :=
    fun index => pde_write_directory m slot 0 index
  have tables : ∀ index, after.HasTable index ↔ index ≠ slot ∧ m.HasTable index := by
    intro index
    rw [HasTable, directory]
    split
    · rename_i same
      simp [same]
    · rename_i apart
      exact (and_iff_right apart).symm
  have kept : after.TablesSound := by
    refine ⟨?_, (tables _).mpr ⟨below.symm, sound.present⟩, ?_⟩
    · rw [directory, if_neg below.symm]
      exact sound.recursive
    · intro first firstBound second secondBound firstTable secondTable same
      obtain ⟨firstApart, firstTable⟩ := (tables _).mp firstTable
      obtain ⟨secondApart, secondTable⟩ := (tables _).mp secondTable
      rw [directory, directory, if_neg firstApart, if_neg secondApart] at same
      exact sound.separate first firstBound second secondBound firstTable secondTable same
  refine ⟨kept, directory, fun virt => ?_⟩
  have pageSplit := pageOf_split virt
  have pdBound := pdIndex_lt virt
  have ptBound := ptIndex_lt virt
  by_cases window : pdIndex virt = recursivePdIndex
  · rw [kept.entry_window window, sound.entry_window window, directory]
    refine if_congr ?_ rfl rfl
    simp only [recursivePdIndex] at window below
    omega
  · have other : pageOf virt ≠ 0xFFC00 + slot := by
      simp only [recursivePdIndex] at window
      omega
    by_cases own : pdIndex virt = slot
    · rw [if_pos (.inr own), entry, if_neg fun linked => ((tables _).mp linked).1 own]
    · rw [if_neg (not_or.mpr ⟨other, own⟩), entry, entry]
      refine if_ctx_congr ((tables _).trans (and_iff_right own)) (fun linked => ?_) fun _ => rfl
      have offDirectory := sound.table_ne_directory pdBound window linked
      rw [pte, pte, directory, if_neg own]
      simp [after, write, offDirectory]

def Present (m : Mm) (virt : Nat) : Prop := m.entry virt &&& pagePresent ≠ 0

instance (m : Mm) (virt : Nat) : Decidable (m.Present virt) := inferInstanceAs (Decidable (_ ≠ _))

/-- Unmapping `page` changes what is mapped at `virt`. -/
def Touches (page virt : Nat) : Prop := pageOf virt = pageOf page ∨ pageOf page = tablePage virt

instance (page virt : Nat) : Decidable (Touches page virt) := inferInstanceAs (Decidable (_ ∨ _))

theorem pageOf_regular {page : Nat} (regular : pdIndex page ≠ recursivePdIndex) :
    pageOf page < 0xFFFFF := by
  have split := pageOf_split page
  have bound := pdIndex_lt page
  have slot := ptIndex_lt page
  simp only [recursivePdIndex] at regular
  omega

theorem touches_regular {page virt : Nat} (regular : pdIndex page ≠ recursivePdIndex) :
    Touches page virt ↔ pageOf virt = pageOf page := by
  rw [Touches, pageOf_eq_tablePage]
  exact or_iff_left fun window => regular window.1

theorem TablesSound.unmapPage (sound : m.TablesSound) {page : Nat} (mapped : m.Present page)
    (below : pageOf page < 0xFFFFF) :
    (vmmUnmapPage m page).TablesSound ∧
      ∀ virt, (vmmUnmapPage m page).entry virt = if Touches page virt then 0 else m.entry virt := by
  have table := hasTable_of_mapped mapped
  rw [vmmUnmapPage, sound.pd_read, if_neg table, sound.getPt_eq (pdIndex_lt page)]
  by_cases window : pdIndex page = recursivePdIndex
  · have split := pageOf_split page
    have slotBelow : ptIndex page ≠ recursivePdIndex := by
      simp only [recursivePdIndex] at window ⊢
      omega
    rw [window, sound.recursive]
    obtain ⟨kept, _, entries⟩ := sound.unlink slotBelow
    refine ⟨kept, fun virt => (entries virt).trans (if_congr ?_ rfl rfl)⟩
    rw [Touches, pageOf_eq_tablePage, split, window]
    simp only [recursivePdIndex, true_and]
    exact or_congr Iff.rfl eq_comm
  · obtain ⟨kept, entries⟩ := @TablesSound.writeEntry _ sound page 0 table window
    refine ⟨kept, fun virt => (entries virt).trans (if_congr ?_ rfl rfl)⟩
    rw [Touches, pageOf_eq_tablePage]
    exact (or_iff_left fun other => window other.1).symm

/-- `after` is `m` with the pages unmapped, and freed unless the area is shared. -/
structure Unmapped (m after : Mm) (shared : Bool) (pages : List Nat) : Prop where
  sound : after.TablesSound
  total : after.pmm.totalFrames = m.pmm.totalFrames
  gone : ∀ virt, (∃ page ∈ pages, Touches page virt) → ¬ after.Present virt
  kept : ∀ virt, (¬ ∃ page ∈ pages, Touches page virt) → after.entry virt = m.entry virt
  used : ∀ frame, after.pmm.bitmapTest frame = true ↔ m.pmm.bitmapTest frame = true ∧
    ¬ (shared = false ∧ frame < m.pmm.totalFrames ∧
      ∃ page ∈ pages, m.Present page ∧ frameOf (m.entry page) = frame)

theorem bitmapTest_freeFrame (pmm : Pmm) (addr frame : Nat) :
    (pmmFreeFrame pmm addr).bitmapTest frame = true ↔
      pmm.bitmapTest frame = true ∧ ¬ (frame < pmm.totalFrames ∧ addr / 4096 = frame) := by
  rcases pmmFreeFrame_cases pmm addr with ⟨bound, used, after⟩ | ⟨idle, after⟩
  · rw [after, Pmm.bitmapTest_bitmapClear]
    by_cases same : frame = addr / 4096
    · simp [same, bound]
    · simp [same, Ne.symm same]
  · rw [after]
    refine (and_iff_left_of_imp ?_).symm
    rintro isUsed ⟨bound, rfl⟩
    rcases idle with outside | free
    · omega
    · cases isUsed.symm.trans free

theorem entry_congr (m : Mm) {virt other : Nat} (same : pageOf virt = pageOf other) :
    m.entry virt = m.entry other := by
  obtain ⟨directory, table⟩ := (pageOf_eq_iff _ _).mp same
  rw [entry, entry, directory, table]

theorem TablesSound.present_of_touches (sound : m.TablesSound) {page virt : Nat}
    (touched : Touches page virt) (present : m.Present virt) : m.Present page := by
  rcases touched with same | table
  · rwa [Present, ← m.entry_congr same]
  · obtain ⟨window, slot⟩ := (pageOf_eq_tablePage page virt).mp table
    rw [Present, sound.entry_window window, slot]
    exact hasTable_of_mapped present

theorem TablesSound.munmapPage (sound : m.TablesSound) (shared : Bool) {page : Nat}
    (below : pageOf page < 0xFFFFF) :
    Unmapped m (ZurichOS.munmapPage shared m page) shared [page] := by
  simp only [ZurichOS.munmapPage]
  by_cases mapped : m.Present page
  · rw [if_pos ((vmmIsMapped_iff sound page).mpr mapped)]
    obtain ⟨kept, entries⟩ := sound.unmapPage mapped below
    have physical : vmmGetPhysical m page / 4096 = frameOf (m.entry page) := by
      rw [physical_frame sound, if_neg mapped]
    cases shared with
    | true =>
        rw [if_pos rfl]
        refine ⟨kept, by rw [vmmUnmapPage_pmm], ?_, ?_, ?_⟩
        · rintro virt ⟨page, member, touched⟩
          cases List.mem_singleton.mp member
          rw [Present, entries, if_pos touched]
          exact fun present => present rfl
        · intro virt untouched
          rw [entries, if_neg fun touched => untouched ⟨page, List.mem_singleton_self _, touched⟩]
        · intro frame
          rw [vmmUnmapPage_pmm]
          simp
    | false =>
        rw [if_neg Bool.false_ne_true]
        refine ⟨kept.congr rfl fun _ => rfl, ?_, ?_, ?_, ?_⟩
        · rw [vmmUnmapPage_pmm]
          exact totalFrames_freeFrame _ _
        · rintro virt ⟨page, member, touched⟩
          cases List.mem_singleton.mp member
          show ¬ (vmmUnmapPage m page).entry virt &&& pagePresent ≠ 0
          rw [entries, if_pos touched]
          exact fun present => present rfl
        · intro virt untouched
          show (vmmUnmapPage m page).entry virt = m.entry virt
          rw [entries, if_neg fun touched => untouched ⟨page, List.mem_singleton_self _, touched⟩]
        · intro frame
          rw [vmmUnmapPage_pmm, bitmapTest_freeFrame, physical]
          simp [mapped]
  · rw [if_neg ((vmmIsMapped_iff sound page).not.mpr mapped)]
    refine ⟨sound, rfl, ?_, fun _ _ => rfl, fun frame => ?_⟩
    · rintro virt ⟨page, member, touched⟩ present
      cases List.mem_singleton.mp member
      exact mapped (sound.present_of_touches touched present)
    · simp [mapped]

/-- Pages in ascending order are unmapped one by one: none is touched by an earlier one. -/
theorem munmapPages_unmapped (sound : m.TablesSound) (shared : Bool) {pages : List Nat}
    (below : ∀ page ∈ pages, pageOf page < 0xFFFFF)
    (ascending : pages.Pairwise fun first second => pageOf first < pageOf second) :
    Unmapped m (pages.foldl (ZurichOS.munmapPage shared) m) shared pages := by
  induction pages generalizing m with
  | nil => exact ⟨sound, rfl, by simp, fun _ _ => rfl, by simp⟩
  | cons page rest ih =>
      obtain ⟨after, ascending⟩ := List.pairwise_cons.mp ascending
      have first := sound.munmapPage shared (below page List.mem_cons_self)
      have others := ih first.sound (fun p member => below p (List.mem_cons_of_mem _ member))
        ascending
      have later : ∀ p ∈ rest,
          (ZurichOS.munmapPage shared m page).entry p = m.entry p := by
        intro p member
        refine first.kept p ?_
        rintro ⟨q, own, same | table⟩
        · cases List.mem_singleton.mp own
          exact absurd same (Nat.ne_of_gt (after p member))
        · cases List.mem_singleton.mp own
          have order := after p member
          have table_le := pageOf_le_tablePage p
          omega
      refine ⟨others.sound, others.total.trans first.total, ?_, ?_, ?_⟩
      · rintro virt ⟨p, member, touched⟩ present
        rcases List.mem_cons.mp member with rfl | member
        · by_cases again : ∃ q ∈ rest, Touches q virt
          · exact others.gone virt again present
          · rw [Present, List.foldl_cons, others.kept virt again] at present
            exact first.gone virt ⟨p, List.mem_singleton_self _, touched⟩ present
        · exact others.gone virt ⟨p, member, touched⟩ present
      · intro virt untouched
        rw [List.foldl_cons, others.kept virt fun ⟨p, member, touched⟩ =>
          untouched ⟨p, List.mem_cons_of_mem _ member, touched⟩]
        refine first.kept virt fun ⟨p, member, touched⟩ => untouched ⟨p, ?_, touched⟩
        cases List.mem_singleton.mp member
        exact List.mem_cons_self
      · intro frame
        have same : (∃ p ∈ rest, (ZurichOS.munmapPage shared m page).Present p ∧
              frameOf ((ZurichOS.munmapPage shared m page).entry p) = frame) ↔
            ∃ p ∈ rest, m.Present p ∧ frameOf (m.entry p) = frame := by
          refine exists_congr fun p => and_congr_right fun member => ?_
          rw [Present, later p member]
          rfl
        rw [List.foldl_cons, others.used, first.used, first.total, same, List.exists_mem_cons_iff,
          List.exists_mem_cons_iff]
        simp only [List.not_mem_nil, false_and, exists_false, or_false]
        rw [and_assoc, ← not_or, ← and_or_left, ← and_or_left]

/-! Reprotecting. -/

/-- Unmapping a page and mapping it for the user writes two words: the entry of its table in
the directory, and its own. -/
theorem TablesSound.remap_eq (sound : m.TablesSound) {page phys flags : Nat}
    (mapped : m.Present page) (below : pageOf page < 0xFFFFF) (user : flags &&& pageUser ≠ 0) :
    vmmMapPage (vmmUnmapPage m page) page phys flags =
      (m.write (m.cr3 / 4096) (pdIndex page) (m.pde (pdIndex page) ||| pageUser)).write
        (frameOf (m.pde (pdIndex page))) (ptIndex page) (tableEntry phys flags) := by
  have table := hasTable_of_mapped mapped
  have pageSplit := pageOf_split page
  have unmapped : vmmUnmapPage m page =
      m.write (frameOf (m.pde (pdIndex page))) (ptIndex page) 0 := by
    rw [vmmUnmapPage, sound.pd_read, if_neg table, sound.getPt_eq (pdIndex_lt page)]
  have kept := (sound.unmapPage mapped below).1
  rw [unmapped] at kept ⊢
  have same : (m.write (frameOf (m.pde (pdIndex page))) (ptIndex page) 0).pde (pdIndex page) =
      m.pde (pdIndex page) := by
    by_cases window : pdIndex page = recursivePdIndex
    · have apart : recursivePdIndex ≠ ptIndex page := by
        simp only [recursivePdIndex] at window ⊢
        omega
      rw [window, sound.recursive, pde_write_directory, if_neg apart]
    · exact pde_write_other m (sound.table_ne_directory (pdIndex_lt page) window table) _ _ _
  obtain ⟨opened, _, frames⟩ := kept.openUser (pdIndex page)
  rw [vmmMapPage_present kept phys flags (by rwa [HasTable, same])]
  dsimp only
  rw [if_pos user, opened.getPt_eq (pdIndex_lt page), frames, same]
  simp only [write, Mm.mk.injEq, true_and]
  funext frame index
  by_cases own : frame = frameOf (m.pde (pdIndex page)) ∧ index = ptIndex page
  · rw [if_pos own, if_pos own]
  · rw [if_neg own, if_neg own, if_neg own]
    rfl

/-- `after` is `m` with the mapped ones of the pages given to the user with `flags`. -/
structure Reprotected (m after : Mm) (flags : Nat) (pages : List Nat) : Prop where
  sound : after.TablesSound
  pmm : after.pmm = m.pmm
  present : ∀ virt, after.Present virt ↔ m.Present virt
  frame : ∀ virt, frameOf (after.entry virt) = frameOf (m.entry virt)
  inside : ∀ virt, m.Present virt → (∃ page ∈ pages, pageOf virt = pageOf page) →
    (after.entry virt &&& pageWrite ≠ 0 ↔ flags &&& pageWrite ≠ 0)
  opened : ∀ virt, (¬ ∃ page ∈ pages, pageOf virt = pageOf page) →
    (∃ page ∈ pages, m.Present page ∧ pageOf virt = tablePage page) →
      after.entry virt = m.entry virt ||| pageUser
  kept : ∀ virt, (¬ ∃ page ∈ pages, pageOf virt = pageOf page) →
    (¬ ∃ page ∈ pages, m.Present page ∧ pageOf virt = tablePage page) →
      after.entry virt = m.entry virt

theorem and_or_user (entry : Nat) : (entry ||| pageUser) &&& pageWrite = entry &&& pageWrite := by
  rw [Nat.and_or_distrib_right, show pageUser &&& pageWrite = 0 by decide, Nat.or_zero]

theorem tableEntry_write (phys flags : Nat) :
    tableEntry phys flags &&& pageWrite = flags &&& pageWrite := by
  have offset : 0xFFF &&& pageWrite = pageWrite := by decide
  have mask : 0xFFFFF000 &&& pageWrite = 0 := by decide
  have present : pagePresent &&& pageWrite = 0 := by decide
  rw [tableEntry, Nat.and_or_distrib_right, Nat.and_or_distrib_right, Nat.and_assoc, Nat.and_assoc,
    mask, offset, present, Nat.and_zero, Nat.zero_or, Nat.or_zero]

theorem TablesSound.frameOf_remapped (sound : m.TablesSound) {page : Nat} (flags : Nat)
    (mapped : m.Present page) :
    frameOf (tableEntry (vmmGetPhysical m page) flags) = frameOf (m.entry page) := by
  have low : page &&& 0xFFF < 4096 := by
    rw [and_offsetMask]
    omega
  rw [frameOf, tableEntry_page, vmmGetPhysical_eq sound, if_neg mapped, ← frameOf,
    frameOf_or_low _ _ low, frameOf, frameOf, Nat.and_assoc, Nat.and_self]

theorem TablesSound.writePage (sound : m.TablesSound) {page value : Nat} (mapped : m.Present page)
    (present : value &&& pagePresent ≠ 0) (frame : frameOf value = frameOf (m.entry page)) :
    let after := m.write (frameOf (m.pde (pdIndex page))) (ptIndex page) value
    after.TablesSound ∧
      ∀ virt, after.entry virt = if pageOf virt = pageOf page then value else m.entry virt := by
  by_cases window : pdIndex page = recursivePdIndex
  · have pageSplit := pageOf_split page
    rw [sound.entry_window window] at frame
    rw [Present, sound.entry_window window] at mapped
    obtain ⟨kept, _, _, entries⟩ := sound.relink mapped (ptIndex_lt page) present frame
    rw [window, sound.recursive]
    refine ⟨kept, fun virt => (entries virt).trans (if_congr ?_ rfl rfl)⟩
    rw [pageSplit, window]
    exact Iff.rfl
  · exact sound.writeEntry (hasTable_of_mapped mapped) window

theorem TablesSound.reprotected_unmapped (sound : m.TablesSound) {page : Nat} (flags : Nat)
    (unmapped : ¬ m.Present page) : Reprotected m m flags [page] := by
  refine ⟨sound, rfl, fun _ => Iff.rfl, fun _ => rfl, ?_, ?_, fun _ _ _ => rfl⟩
  · rintro virt present ⟨page, member, same⟩
    cases List.mem_singleton.mp member
    exact absurd (sound.present_of_touches (.inl same) present) unmapped
  · rintro virt _ ⟨page, member, present, _⟩
    cases List.mem_singleton.mp member
    exact absurd present unmapped

theorem TablesSound.mprotectPage (sound : m.TablesSound) {page flags : Nat}
    (below : pageOf page < 0xFFFFF) (user : flags &&& pageUser ≠ 0) :
    Reprotected m (ZurichOS.mprotectPage flags m page) flags [page] := by
  rw [ZurichOS.mprotectPage]
  by_cases mapped : m.Present page
  · rw [if_pos ((vmmIsMapped_iff sound page).mpr mapped), sound.remap_eq mapped below user]
    have frame := sound.frameOf_remapped flags mapped
    generalize vmmGetPhysical m page = phys at frame ⊢
    have apart : pageOf page ≠ tablePage page := by
      intro own
      have split := pageOf_split page
      obtain ⟨directory, table⟩ := (pageOf_eq_tablePage page page).mp own
      simp only [recursivePdIndex] at directory
      omega
    obtain ⟨opened, tables, frames, entries⟩ := @TablesSound.relink m sound (pdIndex page)
      (m.pde (pdIndex page) ||| pageUser) (hasTable_of_mapped mapped) (pdIndex_lt page)
      (by rw [openUser_present]; exact hasTable_of_mapped mapped) (frameOf_or_low _ _ (by decide))
    have samePmm : (m.write (m.cr3 / 4096) (pdIndex page)
      (m.pde (pdIndex page) ||| pageUser)).pmm = m.pmm := rfl
    generalize m.write (m.cr3 / 4096) (pdIndex page) (m.pde (pdIndex page) ||| pageUser) = middle
      at opened tables frames entries samePmm ⊢
    replace entries : ∀ virt, middle.entry virt =
      if pageOf virt = tablePage page then m.pde (pdIndex page) ||| pageUser else m.entry virt :=
      entries
    have own : middle.entry page = m.entry page := by
      rw [entries, if_neg apart]
    obtain ⟨kept, written⟩ := @TablesSound.writePage middle opened page (tableEntry phys flags)
      (by rw [Present, own]; exact mapped) (tableEntry_present phys flags) (by rw [own, frame])
    rw [frames] at kept written
    have shown : ∀ virt, pageOf virt = tablePage page → m.entry virt = m.pde (pdIndex page) := by
      intro virt same
      obtain ⟨window, slot⟩ := (pageOf_eq_tablePage virt page).mp same
      rw [sound.entry_window window, slot]
    refine ⟨kept, samePmm, fun virt => ?_, fun virt => ?_, ?_, ?_, ?_⟩
    · rw [Present, Present, written, entries]
      split
      · rename_i same
        rw [m.entry_congr same]
        exact iff_of_true (tableEntry_present phys flags) mapped
      · split
        · rename_i same
          rw [shown virt same, openUser_present]
        · rfl
    · rw [written, entries]
      split
      · rename_i same
        rw [m.entry_congr same, frame]
      · split
        · rename_i same
          rw [shown virt same, frameOf_or_low _ _ (by decide)]
        · rfl
    · rintro virt _ ⟨page, member, same⟩
      cases List.mem_singleton.mp member
      rw [written, if_pos same, tableEntry_write]
    · rintro virt outside ⟨page, member, _, same⟩
      cases List.mem_singleton.mp member
      rw [written, if_neg fun inside => outside ⟨page, List.mem_singleton_self _, inside⟩, entries,
        if_pos same, shown virt same]
    · intro virt outside closed
      rw [written, if_neg fun inside => outside ⟨page, List.mem_singleton_self _, inside⟩, entries,
        if_neg fun same => closed ⟨page, List.mem_singleton_self _, mapped, same⟩]
  · rw [if_neg ((vmmIsMapped_iff sound page).not.mpr mapped)]
    exact sound.reprotected_unmapped flags mapped

theorem mprotectPages_reprotected (sound : m.TablesSound) {flags : Nat}
    (user : flags &&& pageUser ≠ 0) {pages : List Nat} (below : ∀ page ∈ pages, pageOf page < 0xFFFFF) :
    Reprotected m (pages.foldl (ZurichOS.mprotectPage flags) m) flags pages := by
  induction pages generalizing m with
  | nil => exact ⟨sound, rfl, fun _ => Iff.rfl, fun _ => rfl, by simp, by simp, fun _ _ _ => rfl⟩
  | cons page rest ih =>
      have first := sound.mprotectPage (below page List.mem_cons_self) user
      have others := ih first.sound fun p member => below p (List.mem_cons_of_mem _ member)
      rw [List.foldl_cons]
      refine ⟨others.sound, others.pmm.trans first.pmm,
        fun virt => (others.present virt).trans (first.present virt),
        fun virt => (others.frame virt).trans (first.frame virt), ?_, ?_, ?_⟩
      · rintro virt present ⟨p, member, same⟩
        by_cases again : ∃ q ∈ rest, pageOf virt = pageOf q
        · exact others.inside virt ((first.present virt).mpr present) again
        rcases List.mem_cons.mp member with rfl | member
        · have own := first.inside virt present ⟨p, List.mem_singleton_self _, same⟩
          by_cases opens : ∃ q ∈ rest, Present (ZurichOS.mprotectPage flags m p) q ∧
              pageOf virt = tablePage q
          · rw [others.opened virt again opens, and_or_user]
            exact own
          · rw [others.kept virt again opens]
            exact own
        · exact absurd ⟨p, member, same⟩ again
      · intro virt outside opens
        obtain ⟨notPage, notRest⟩ := not_or.mp (List.exists_mem_cons_iff _ _ _ |>.not.mp outside)
        have here : ¬ ∃ q ∈ [page], pageOf virt = pageOf q := by simpa using notPage
        by_cases byPage : m.Present page ∧ pageOf virt = tablePage page
        · have opened := first.opened virt here ⟨page, List.mem_singleton_self _, byPage⟩
          by_cases byRest : ∃ q ∈ rest, Present (ZurichOS.mprotectPage flags m page) q ∧
              pageOf virt = tablePage q
          · rw [others.opened virt notRest byRest, opened, Nat.or_assoc, Nat.or_self]
          · rw [others.kept virt notRest byRest, opened]
        · have closed : ¬ ∃ q ∈ [page], m.Present q ∧ pageOf virt = tablePage q := by
            simpa using byPage
          obtain ⟨q, member, present, same⟩ := opens
          rcases List.mem_cons.mp member with rfl | member
          · exact absurd ⟨present, same⟩ byPage
          · rw [others.opened virt notRest ⟨q, member, (first.present q).mpr present, same⟩,
              first.kept virt here closed]
      · intro virt outside closed
        obtain ⟨notPage, notRest⟩ := not_or.mp (List.exists_mem_cons_iff _ _ _ |>.not.mp outside)
        obtain ⟨byPage, byRest⟩ := not_or.mp (List.exists_mem_cons_iff _ _ _ |>.not.mp closed)
        rw [others.kept virt notRest fun ⟨q, member, present, same⟩ =>
            byRest ⟨q, member, (first.present q).mp present, same⟩,
          first.kept virt (by simpa using notPage) (by simpa using byPage)]

end Mm

end ZurichOS
