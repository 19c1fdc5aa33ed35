import ZurichOS.ReservedMemory
import ZurichOS.VmaRange

/-!
The rounds of the page loop of `mmap`, each taking a frame and, for a missing table, a
second one, and the rollback.  The loop ends with every page mapped, without a frame, or
past a page it could not map for want of a table.
-/

namespace ZurichOS

open Words

namespace Mm

variable {m now after : Mm} {page : Nat}

/-! The directory slot of a page that is mapped for the user. -/

theorem or_user (entry : Nat) : (entry ||| pageUser) &&& pageUser ≠ 0 := by
  rw [Nat.and_or_distrib_right]
  simp

theorem or_user_eq {entry : Nat} (user : entry &&& pageUser ≠ 0) : entry ||| pageUser = entry := by
  have bit : entry.testBit 2 = true := by
    rw [show pageUser = 2 ^ 2 from rfl, Nat.and_two_pow] at user
    by_contra clear
    exact user (by simp [clear])
  refine Nat.eq_of_testBit_eq fun i => ?_
  rw [Nat.testBit_or]
  by_cases third : i = 2
  · rw [third, bit, Bool.true_or]
  · rw [show pageUser = 2 ^ 2 from rfl, Nat.testBit_two_pow_of_ne (Ne.symm third), Bool.or_false]

/-- A table that is there is opened to the user, a new one is made open. -/
theorem TablesSound.mapPage_pde (sound : m.TablesSound) (regular : pdIndex page ≠ recursivePdIndex)
    (phys : Nat) {flags : Nat} (user : flags &&& pageUser = pageUser)
    (fresh : ¬ m.HasTable (pdIndex page) → (pmmAllocFrame m.pmm).1 ≠ 0 ∧
      m.FreshTable ((pmmAllocFrame m.pmm).1 / 4096)) :
    ∃ entry, (vmmMapPage m page phys flags).pde (pdIndex page) = entry ||| pageUser ∧
      (m.HasTable (pdIndex page) → entry = m.pde (pdIndex page)) := by
  have bound := pdIndex_lt page
  by_cases table : m.HasTable (pdIndex page)
  · have some : flags &&& pageUser ≠ 0 := by rw [user]; decide
    rw [vmmMapPage_present sound phys flags table, if_pos some]
    dsimp only
    obtain ⟨opened, tables, _⟩ := sound.openUser (pdIndex page)
    rw [opened.getPt_eq bound]
    have apart := opened.table_ne_directory bound regular ((tables _).mpr table)
    refine ⟨m.pde (pdIndex page), ?_, fun _ => rfl⟩
    rw [pde_write_other _ apart, pde_write_directory, if_pos rfl]
  · obtain ⟨success, freshFrame⟩ := fresh table
    rw [vmmMapPage_absent sound phys flags table success, user]
    have taken : ({ m with pmm := (pmmAllocFrame m.pmm).2 } : Mm).TablesSound :=
      sound.congr rfl fun _ => rfl
    obtain ⟨window, cleared, directory, _⟩ := taken.linkTable bound table freshFrame
      ((frameOf_link (pmmAllocFrame m.pmm).1 pageUser).trans (frameOf_allocFrame m.pmm))
    dsimp only at window cleared directory ⊢
    rw [Nat.and_self] at window cleared directory
    rw [window]
    refine ⟨(pmmAllocFrame m.pmm).1 ||| pagePresent ||| pageWrite, ?_, fun has => absurd has table⟩
    have apart := cleared.table_ne_directory bound regular (by
      rw [HasTable, directory, if_pos rfl]
      exact link_present (pmmAllocFrame m.pmm).1 pageUser)
    rw [cleared.getPt_eq bound]
    refine (pde_write_other _ apart _ _ _).trans ?_
    rw [directory, if_pos rfl]

/-! A round that maps its page. -/

/-- `after` is `m` with a free frame given to `page`, and one to its table if it had none. -/
structure Backed (m after : Mm) (page : Nat) : Prop extends KeepsReserved 0 m after where
  total : after.pmm.totalFrames = m.pmm.totalFrames
  present : after.Present page
  bound : frameOf (after.entry page) < m.pmm.totalFrames
  isFree : m.pmm.bitmapTest (frameOf (after.entry page)) = false
  taken : after.Harmless (frameOf (after.entry page))
  others : ∀ other, pdIndex other ≠ recursivePdIndex → pageOf other ≠ pageOf page →
    after.entry other = m.entry other
  tables : ∀ index, after.HasTable index ↔ m.HasTable index ∨ index = pdIndex page
  opened : after.pde (pdIndex page) &&& pageUser ≠ 0
  slots : ∀ index, (index = pdIndex page → m.HasTable index ∧ m.pde index &&& pageUser ≠ 0) →
    after.pde index = m.pde index
  room : after.pmm.freeFrames + (if m.HasTable (pdIndex page) then 1 else 2) = m.pmm.freeFrames
  grows : ∀ frame, m.pmm.bitmapTest frame = true → after.pmm.bitmapTest frame = true
  only : m.HasTable (pdIndex page) → ∀ frame, after.pmm.bitmapTest frame = true →
    m.pmm.bitmapTest frame = true ∨ frame = frameOf (after.entry page)

theorem ReservedKept.backed (kept : ReservedKept 0 m) (user : page < 0x80000000)
    (spill : page % 4096 ≠ 0 → m.Maps (page + 0x1000) m.Harmless)
    (some : m.pmm.freeFrames ≠ 0) (enough : m.HasTable (pdIndex page) ∨ 1 < m.pmm.freeFrames) :
    Backed m (m.mmapStep page) page := by
  have success := mt kept.accounted.allocFrame_dry_iff.mp some
  have regular := user_ne_recursive (show page < 0xC0000000 by omega)
  have takes := kept.accounted.takes success
  have same : SameFrames _ (m.mmapStep page) :=
    kept.cleared success user spill (pageUser ||| pagePresent ||| pageWrite)
  have given : Given 0 m (m.mmapStep page) page :=
    kept.mmapRound success user spill (pageUser ||| pagePresent ||| pageWrite)
  obtain ⟨present, room, _⟩ := given.placed enough
  have guarded := kept.allocFrame.kept.guarded
  have second : ¬ m.HasTable (pdIndex page) → (pmmAllocFrame (pmmAllocFrame m.pmm).2).1 ≠ 0 ∧
      m.FreshTable ((pmmAllocFrame (pmmAllocFrame m.pmm).2).1 / 4096) := by
    intro absent
    have two := enough.resolve_left absent
    have more : (pmmAllocFrame (pmmAllocFrame m.pmm).2).1 ≠ 0 := by
      rw [Ne, takes.accounted.allocFrame_dry_iff, takes.room]
      omega
    exact ⟨more, (guarded.allocFrame_success more).2.2.1⟩
  have set := vmmMapPage_setsEntry guarded.toTablesSound regular (pmmAllocFrame m.pmm).1
    (pageUser ||| pagePresent ||| pageWrite) second
  obtain ⟨entry, opened, link⟩ := guarded.toTablesSound.mapPage_pde regular (pmmAllocFrame m.pmm).1
    (show (pageUser ||| pagePresent ||| pageWrite) &&& pageUser = pageUser by decide) second
  have pmm : (m.mmapStep page).pmm = if m.HasTable (pdIndex page) then (pmmAllocFrame m.pmm).2
      else (pmmAllocFrame (pmmAllocFrame m.pmm).2).2 :=
    same.pmm.trans (vmmMapPage_pmm guarded.toTablesSound _ _ _)
  have own : frameOf ((m.mmapStep page).entry page) = (pmmAllocFrame m.pmm).1 / 4096 := by
    rw [same.entry, set.entry_eq regular, if_pos rfl, frameOf_tableEntry]
  have grows : ∀ frame, m.pmm.bitmapTest frame = true →
      (m.mmapStep page).pmm.bitmapTest frame = true := by
    intro frame used
    rw [same.pmm]
    refine vmmMapPage_keeps ?_ _ _ _
    exact allocFrame_keeps used
  refine ⟨given.toKeepsReserved, ?_, present, ?_, ?_, ?_, given.others, fun index => ?_, ?_,
    fun index fine => ?_, ?_, grows, fun linked frame used => ?_⟩
  · rw [pmm]
    split
    · exact takes.total
    · exact (totalFrames_allocFrame _).trans takes.total
  · rw [own]
    exact takes.bound
  · rw [own]
    exact takes.isFree
  · rw [own]
    exact given.taken
  · rw [HasTable, same.directory]
    exact set.hasTable_iff index
  · rw [same.directory, opened]
    exact or_user entry
  · rw [same.directory]
    by_cases ownSlot : index = pdIndex page
    · obtain ⟨linked, isUser⟩ := fine ownSlot
      subst ownSlot
      rw [opened, link linked]
      exact or_user_eq isUser
    · exact set.directory index ownSlot
  · rw [room]
    split
    · omega
    · rename_i absent
      have two := enough.resolve_left absent
      omega
  · rw [pmm, if_pos linked] at used
    by_contra other
    rw [own, not_or, Bool.not_eq_true] at other
    exact absurd used (Bool.eq_false_iff.mp ((takes.free frame).mpr other))

/-! The rounds so far. -/

/-- The directory slots that tables have to be made for before the pages can be mapped. -/
def missingTables (m : Mm) (pages : List Nat) : Finset Nat :=
  (pages.map pdIndex).toFinset.filter fun index => ¬ m.HasTable index

theorem mem_missingTables {pages : List Nat} {index : Nat} :
    index ∈ m.missingTables pages ↔ (∃ page ∈ pages, pdIndex page = index) ∧ ¬ m.HasTable index := by
  simp [missingTables]

theorem missingTables_snoc (m : Mm) (pages : List Nat) (page : Nat) :
    (m.missingTables (pages ++ [page])).card = (m.missingTables pages).card +
      if m.HasTable (pdIndex page) ∨ ∃ other ∈ pages, pdIndex other = pdIndex page then 0 else 1 := by
  have snoc : m.missingTables (pages ++ [page]) =
      if m.HasTable (pdIndex page) then m.missingTables pages
      else insert (pdIndex page) (m.missingTables pages) := by
    ext index
    split <;> simp only [mem_missingTables, Finset.mem_insert, List.mem_append, List.mem_singleton]
    · grind -ring -linarith
    · grind -ring -linarith
  rw [snoc]
  by_cases table : m.HasTable (pdIndex page)
  · rw [if_pos table, if_pos (.inl table), Nat.add_zero]
  rw [if_neg table]
  by_cases earlier : ∃ other ∈ pages, pdIndex other = pdIndex page
  · rw [if_pos (.inr earlier), Finset.insert_eq_of_mem (mem_missingTables.mpr ⟨earlier, table⟩),
      Nat.add_zero]
  · rw [if_neg (not_or.mpr ⟨table, earlier⟩),
      Finset.card_insert_of_notMem fun member => earlier (mem_missingTables.mp member).1]

theorem missingTables_prefix (m : Mm) (front rest : List Nat) :
    (m.missingTables front).card ≤ (m.missingTables (front ++ rest)).card := by
  refine Finset.card_le_card fun index member => ?_
  obtain ⟨⟨page, inside, slot⟩, absent⟩ := mem_missingTables.mp member
  exact mem_missingTables.mpr ⟨⟨page, List.mem_append_left _ inside, slot⟩, absent⟩

/-- From `m` to `now` the pages `done` were mapped one by one. -/
structure Progress (m now : Mm) (done : List Nat) : Prop extends KeepsReserved 0 m now where
  total : now.pmm.totalFrames = m.pmm.totalFrames
  backed : ∀ page ∈ done, now.Present page ∧ now.Harmless (frameOf (now.entry page)) ∧
    frameOf (now.entry page) < m.pmm.totalFrames ∧
    m.pmm.bitmapTest (frameOf (now.entry page)) = false
  distinct : done.Pairwise fun first second =>
    frameOf (now.entry first) ≠ frameOf (now.entry second)
  others : ∀ other, pdIndex other ≠ recursivePdIndex → (∀ page ∈ done, pageOf other ≠ pageOf page) →
    now.entry other = m.entry other
  tables : ∀ index, now.HasTable index ↔ m.HasTable index ∨ ∃ page ∈ done, pdIndex page = index
  opened : ∀ page ∈ done, now.pde (pdIndex page) &&& pageUser ≠ 0
  slots : ∀ index, (∀ page ∈ done, pdIndex page = index →
    m.HasTable index ∧ m.pde index &&& pageUser ≠ 0) → now.pde index = m.pde index
  room : now.pmm.freeFrames + done.length + (m.missingTables done).card = m.pmm.freeFrames
  grows : ∀ frame, m.pmm.bitmapTest frame = true → now.pmm.bitmapTest frame = true
  only : (∀ page ∈ done, m.HasTable (pdIndex page)) → ∀ frame, now.pmm.bitmapTest frame = true →
    m.pmm.bitmapTest frame = true ∨ ∃ page ∈ done, frameOf (now.entry page) = frame

theorem Progress.start (kept : ReservedKept 0 m) : Progress m m [] :=
  ⟨kept.refl, rfl, by simp, .nil, fun _ _ _ => rfl, by simp, by simp, fun _ _ => rfl,
    by simp [missingTables], fun _ used => used, fun _ _ used => .inl used⟩

theorem Progress.snoc {done : List Nat} (progress : Progress m now done) (round : Backed now after page)
    (off : ∀ other ∈ done, pdIndex other ≠ recursivePdIndex ∧ pageOf other ≠ pageOf page) :
    Progress m after (done ++ [page]) := by
  have kept : ∀ other ∈ done, after.entry other = now.entry other := fun other member =>
    round.others other (off other member).1 (off other member).2
  have free : m.pmm.bitmapTest (frameOf (after.entry page)) = false := by
    refine Bool.eq_false_iff.mpr fun used => ?_
    exact Bool.eq_false_iff.mp round.isFree (progress.grows _ used)
  refine ⟨progress.toKeepsReserved.trans round.toKeepsReserved, round.total.trans progress.total,
    ?_, ?_, ?_, ?_, ?_, ?_, ?_, fun frame used => round.grows frame (progress.grows frame used), ?_⟩
  · intro other member
    rcases List.mem_append.mp member with earlier | last
    · obtain ⟨present, harmless, bound, isFree⟩ := progress.backed other earlier
      rw [Present, kept other earlier]
      exact ⟨present, round.harmless _ harmless, bound, isFree⟩
    · cases List.mem_singleton.mp last
      exact ⟨round.present, round.taken, progress.total ▸ round.bound, free⟩
  · refine List.pairwise_append.mpr ⟨?_, List.pairwise_singleton _ _, ?_⟩
    · refine progress.distinct.imp_of_mem fun first second apart => ?_
      rwa [kept _ first, kept _ second]
    · intro other member last isLast same
      cases List.mem_singleton.mp isLast
      have used := (progress.backed other member).2.1.2
      rw [← kept other member, same] at used
      exact Bool.eq_false_iff.mp round.isFree used
  · intro other outside apart
    rw [round.others other outside (apart page (by simp))]
    exact progress.others other outside fun earlier member => apart earlier (by simp [member])
  · intro index
    rw [round.tables, progress.tables, or_assoc]
    simp [or_and_right, exists_or, eq_comm]
  · intro other member
    by_cases last : pdIndex other = pdIndex page
    · rw [last]
      exact round.opened
    · have earlier : other ∈ done := by
        rcases List.mem_append.mp member with earlier | own
        · exact earlier
        · exact absurd (congrArg pdIndex (List.mem_singleton.mp own)) last
      rw [round.slots _ fun same => absurd same last]
      exact progress.opened other earlier
  · intro index fine
    have same := progress.slots index fun other member => fine other (by simp [member])
    rw [round.slots index fun own => ?_, same]
    obtain ⟨table, user⟩ := fine page (by simp) own.symm
    exact ⟨(progress.tables index).mpr (.inl table), same.symm ▸ user⟩
  · have before := progress.room
    have step := round.room
    rw [missingTables_snoc, List.length_append, List.length_singleton,
      if_congr (progress.tables (pdIndex page)).symm rfl rfl]
    split at step <;> rename_i table
    · rw [if_pos table]
      omega
    · rw [if_neg table]
      omega
  · intro linked frame used
    have table := (progress.tables (pdIndex page)).mpr (.inl (linked page (by simp)))
    rcases round.only table frame used with earlier | rfl
    · refine (progress.only (fun other member => linked other (by simp [member])) frame earlier).imp_right ?_
      rintro ⟨other, member, rfl⟩
      exact ⟨other, by simp [member], congrArg frameOf (kept other member)⟩
    · exact .inr ⟨page, by simp, rfl⟩

/-! The rollback. -/

/-- `after` is `m` with the pages unmapped and their frames freed. -/
structure RolledBack (m after : Mm) (pages : List Nat) : Prop where
  sound : after.TablesSound
  total : after.pmm.totalFrames = m.pmm.totalFrames
  entries : ∀ virt, after.entry virt =
    if ∃ page ∈ pages, pageOf virt = pageOf page then 0 else m.entry virt
  used : ∀ frame, after.pmm.bitmapTest frame = true ↔ m.pmm.bitmapTest frame = true ∧
    ¬ (frame < m.pmm.totalFrames ∧ ∃ page ∈ pages, frameOf (m.entry page) = frame)

theorem TablesSound.rollbackPage (sound : m.TablesSound) (regular : pdIndex page ≠ recursivePdIndex)
    (present : m.Present page) : RolledBack m (mmapRollback m page) [page] := by
  obtain ⟨kept, entries⟩ := sound.unmapPage present (pageOf_regular regular)
  refine ⟨kept.congr rfl fun _ => rfl, ?_, fun virt => ?_, fun frame => ?_⟩
  · exact (totalFrames_freeFrame _ _).trans (congrArg _ (vmmUnmapPage_pmm m page))
  · refine (entries virt).trans (if_congr ?_ rfl rfl)
    simp [touches_regular regular]
  · simp only [mmapRollback, bitmapTest_freeFrame, vmmUnmapPage_pmm, List.mem_singleton,
      exists_eq_left]
    rw [physical_frame sound, if_neg present]

theorem TablesSound.rollback (sound : m.TablesSound) {pages : List Nat}
    (present : ∀ page ∈ pages, pdIndex page ≠ recursivePdIndex ∧ m.Present page)
    (apart : pages.Pairwise fun first second => pageOf first ≠ pageOf second) :
    RolledBack m (pages.foldl mmapRollback m) pages := by
  induction pages generalizing m with
  | nil => exact ⟨sound, rfl, by simp, by simp⟩
  | cons page rest ih =>
      obtain ⟨others, apart⟩ := List.pairwise_cons.mp apart
      obtain ⟨regular, own⟩ := present page (by simp)
      have first := sound.rollbackPage regular own
      have same : ∀ other ∈ rest, (mmapRollback m page).entry other = m.entry other := by
        intro other member
        rw [first.entries, if_neg]
        simpa using (others other member).symm
      have later := ih first.sound (fun other member => by
        rw [Present, same other member]
        exact present other (by simp [member])) apart
      refine ⟨later.sound, later.total.trans first.total, fun virt => ?_, fun frame => ?_⟩
      · rw [List.foldl_cons, later.entries, first.entries]
        simp only [List.exists_mem_cons_iff, List.not_mem_nil, false_and, exists_false, or_false]
        split <;> simp [*]
      · have frames : (∃ other ∈ rest, frameOf ((mmapRollback m page).entry other) = frame) ↔
            ∃ other ∈ rest, frameOf (m.entry other) = frame :=
          exists_congr fun other => and_congr_right fun member => by rw [same other member]
        rw [List.foldl_cons, later.used, first.used, first.total, frames, List.exists_mem_cons_iff,
          List.exists_mem_cons_iff]
        simp only [List.not_mem_nil, false_and, exists_false, or_false]
        rw [and_assoc, ← not_or, ← and_or_left]

/-- The page tables and the free frames are as before. -/
structure Undone (m after : Mm) : Prop where
  entries : ∀ virt, after.entry virt = m.entry virt
  frames : ∀ frame, after.pmm.bitmapTest frame = m.pmm.bitmapTest frame

/-- A page that can be mapped and unmapped again with no trace: its entry is empty, and its
table is there and open to the user. -/
def Traceless (m : Mm) (page : Nat) : Prop :=
  m.entry page = 0 ∧ m.HasTable (pdIndex page) ∧ m.pde (pdIndex page) &&& pageUser ≠ 0

instance (m : Mm) (page : Nat) : Decidable (m.Traceless page) :=
  inferInstanceAs (Decidable (_ ∧ _))

theorem Progress.undone_iff {done : List Nat} (progress : Progress m now done)
    (sound : m.TablesSound) (regular : ∀ page ∈ done, pdIndex page ≠ recursivePdIndex)
    (apart : done.Pairwise fun first second => pageOf first ≠ pageOf second) :
    Undone m (done.foldl mmapRollback now) ↔ ∀ page ∈ done, m.Traceless page := by
  have nowSound := progress.kept.guarded.toTablesSound
  have back := nowSound.rollback
    (fun page member => ⟨regular page member, (progress.backed page member).1⟩) apart
  -- An address of the window shows a slot of the directory, and no page is one.
  have window : ∀ virt, pdIndex virt = recursivePdIndex →
      (done.foldl mmapRollback now).entry virt = now.pde (ptIndex virt) ∧
        m.entry virt = m.pde (ptIndex virt) := by
    intro virt inside
    rw [back.entries, if_neg, nowSound.entry_window inside]
    · exact ⟨rfl, sound.entry_window inside⟩
    · rintro ⟨page, member, same⟩
      exact regular page member (((pageOf_eq_iff _ _).mp same).1.symm.trans inside)
  constructor
  · intro undone page member
    have empty : m.entry page = 0 := by
      rw [← undone.entries, back.entries, if_pos ⟨page, member, rfl⟩]
    have slot : now.pde (pdIndex page) = m.pde (pdIndex page) := by
      have bound := pdIndex_lt page
      have inside : pdIndex (0xFFC00000 + pdIndex page * 4096) = recursivePdIndex := by
        rw [pdIndex_eq (0xFFC00000 + _)]
        simp only [recursivePdIndex]
        omega
      have number : ptIndex (0xFFC00000 + pdIndex page * 4096) = pdIndex page := by
        rw [ptIndex_eq]
        omega
      obtain ⟨afterShown, shown⟩ := window _ inside
      rw [number] at afterShown shown
      exact afterShown.symm.trans ((undone.entries _).trans shown)
    refine ⟨empty, ?_, ?_⟩
    · rw [HasTable, ← slot]
      exact (progress.tables _).mpr (.inr ⟨page, member, rfl⟩)
    · rw [← slot]
      exact progress.opened page member
  · intro traceless
    refine ⟨fun virt => ?_, fun frame => ?_⟩
    · by_cases inside : pdIndex virt = recursivePdIndex
      · obtain ⟨afterShown, shown⟩ := window virt inside
        rw [afterShown, shown]
        refine progress.slots _ fun page member same => ?_
        exact same ▸ (traceless page member).2
      · rw [back.entries]
        split
        · rename_i own
          obtain ⟨page, member, same⟩ := own
          rw [m.entry_congr same, (traceless page member).1]
        · rename_i off
          refine progress.others virt inside fun page member same => off ⟨page, member, same⟩
    · rw [Bool.eq_iff_iff, back.used]
      constructor
      · rintro ⟨used, off⟩
        rcases progress.only (fun page member => (traceless page member).2.1) frame used with
          before | ⟨page, member, rfl⟩
        · exact before
        · have bound := (progress.backed page member).2.2.1
          exact absurd ⟨progress.total ▸ bound, page, member, rfl⟩ off
      · intro used
        refine ⟨progress.grows frame used, ?_⟩
        rintro ⟨_, page, member, rfl⟩
        exact Bool.eq_false_iff.mp (progress.backed page member).2.2.2 used

end Mm

end ZurichOS
