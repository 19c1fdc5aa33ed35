import ZurichOS.MmapRounds

set_option linter.all false

/-!
When `mmap` is all or nothing.  A failure has to leave the areas, the next address, the
page tables and the free frames as they were, and a mapping has to give every page of its
range a frame of its own that was free.
-/

namespace ZurichOS

open Words Mm

/-! The page loop. -/

/-- `stuck` is `now` with its last free frame taken for a page that no table could be made for. -/
def Unlinked (now stuck : Mm) (page : Nat) : Prop :=
  ¬ now.HasTable (pdIndex page) ∧ now.pmm.freeFrames = 1 ∧
    SameFrames { now with pmm := (pmmAllocFrame now.pmm).2 } stuck

/-- How the page loop ends. -/
inductive MmapOutcome (m : Mm) (pages : List Nat) : Bool × Mm → Prop where
  | full {now : Mm} (progress : Progress m now pages) : MmapOutcome m pages (true, now)
  | dry {front rest : List Nat} {now : Mm} (shape : pages = front ++ rest) (more : rest ≠ [])
      (progress : Progress m now front) (none : now.pmm.freeFrames = 0) :
      MmapOutcome m pages (false, front.foldl mmapRollback now)
  | unlinked {front : List Nat} {page : Nat} {now stuck : Mm} (shape : pages = front ++ [page])
      (progress : Progress m now front) (left : Unlinked now stuck page) :
      MmapOutcome m pages (true, stuck)
  | unlinkedDry {front rest : List Nat} {page : Nat} {now stuck : Mm}
      (shape : pages = front ++ page :: rest) (more : rest ≠ []) (progress : Progress m now front)
      (left : Unlinked now stuck page) :
      MmapOutcome m pages (false, (front ++ [page]).foldl mmapRollback stuck)

variable {m now : Mm}

theorem Mm.Progress.maps {done : List Nat} (progress : Progress m now done) {virt : Nat}
    (regular : pdIndex virt ≠ recursivePdIndex) (mapped : m.Maps virt m.Harmless) :
    now.Maps virt now.Harmless := by
  by_cases own : ∃ page ∈ done, pageOf virt = pageOf page
  · obtain ⟨page, member, same⟩ := own
    rw [Maps, entry_congr _ same]
    exact fun _ => (progress.backed page member).2.1
  · refine mapped.of_entry progress.harmless (.inl (progress.others virt regular ?_))
    exact fun page member same => own ⟨page, member, same⟩

theorem Mm.ReservedKept.mmapStep_unlinked {page : Nat} (kept : ReservedKept 0 m)
    (user : page < 0x80000000) (spill : page % 4096 ≠ 0 → m.Maps (page + 0x1000) m.Harmless)
    (table : ¬ m.HasTable (pdIndex page)) (one : m.pmm.freeFrames = 1) :
    Unlinked m (m.mmapStep page) page := by
  have success : (pmmAllocFrame m.pmm).1 ≠ 0 :=
    mt kept.accounted.allocFrame_dry_iff.mp (by omega)
  have takes := kept.accounted.takes success
  have none : (pmmAllocFrame (pmmAllocFrame m.pmm).2).1 = 0 := by
    rw [takes.accounted.allocFrame_dry_iff, takes.room, one]
  have taken := kept.allocFrame.kept
  have same := kept.cleared success user spill (pageUser ||| pagePresent ||| pageWrite)
  refine ⟨table, one, ?_⟩
  have failed := vmmMapPage_failed taken.guarded.toTablesSound (pmmAllocFrame m.pmm).1
    (pageUser ||| pagePresent ||| pageWrite) table none
  rw [Pmm.allocFrame_dry none taken.guarded.memory takes.accounted] at failed
  rw [failed] at same
  rw [mmapStep, failed]
  exact same

theorem Unlinked.dry {stuck : Mm} {page : Nat} (left : Unlinked now stuck page)
    (kept : ReservedKept 0 now) :
    (pmmAllocFrame stuck.pmm).1 = 0 ∧ ({ stuck with pmm := (pmmAllocFrame stuck.pmm).2 } : Mm) = stuck := by
  obtain ⟨_, one, same⟩ := left
  have takes := kept.accounted.takes (mt kept.accounted.allocFrame_dry_iff.mp (by omega))
  have stays := (same.keeps kept.allocFrame.kept).kept
  have dry : (pmmAllocFrame stuck.pmm).1 = 0 := by
    rw [same.pmm, takes.accounted.allocFrame_dry_iff, takes.room, one]
  exact ⟨dry, by rw [Pmm.allocFrame_dry dry stays.guarded.memory stays.accounted]⟩

theorem mmapPages_outcome (kept : ReservedKept 0 m)
    (maps : ∀ virt < 0xC0000000, m.Maps virt m.Harmless) {vaddr stop : Nat}
    (user : stop ≤ 0x80000000) :
    MmapOutcome m (pageLoop vaddr stop) (mmapPages vaddr (pageLoop vaddr stop) m) := by
  refine mmapPages_rule (fun front rest now => Progress m now front ∨ ∃ before page prior,
    front = before ++ [page] ∧ Progress m prior before ∧ Unlinked prior now page)
    (MmapOutcome m (pageLoop vaddr stop)) ?_ ?_ ?_ (.inl (.start kept))
  · rintro front page rest now shape (progress | ⟨_, _, prior, rfl, progress, left⟩) success
    · have low : ∀ p ∈ front ++ page :: rest, p < 0x80000000 := fun p member =>
        Nat.lt_of_lt_of_le (mem_pageLoop.mp (shape ▸ member)).2.1 user
      have own := low page (by simp)
      have spill : page % 4096 ≠ 0 → now.Maps (page + 0x1000) now.Harmless := fun _ =>
        progress.maps (user_ne_recursive (by omega)) (maps _ (by omega))
      have some := mt progress.kept.accounted.allocFrame_dry_iff.mpr success
      by_cases enough : now.HasTable (pdIndex page) ∨ 1 < now.pmm.freeFrames
      · have ascending := @pageLoop_ascending vaddr stop (by omega)
        rw [shape] at ascending
        have before := (List.pairwise_append.mp ascending).2.2
        refine .inl (progress.snoc (progress.kept.backed own spill some enough) fun p member => ?_)
        exact ⟨user_ne_recursive (Nat.lt_trans (low p (by simp [member])) (by decide)),
          Nat.ne_of_lt (before p member page (by simp))⟩
      · obtain ⟨table, few⟩ := not_or.mp enough
        exact .inr ⟨front, page, now, rfl, progress,
          progress.kept.mmapStep_unlinked own spill table (by omega)⟩
    · exact absurd (left.dry progress.kept).1 success
  · rintro front page rest now shape (progress | ⟨before, last, prior, rfl, progress, left⟩) failed
    · have kept := progress.kept
      rw [Pmm.allocFrame_dry failed kept.guarded.memory kept.accounted]
      exact .dry shape (by simp) progress (kept.accounted.allocFrame_dry_iff.mp failed)
    · rw [(left.dry progress.kept).2]
      exact .unlinkedDry (by simpa using shape) (by simp) progress left
  · rintro now (progress | ⟨_, _, prior, shape, progress, left⟩)
    · exact .full progress
    · exact .unlinked shape progress left

/-- Every page has a frame that was free, and no two pages one. -/
structure PagesBacked (m after : Mm) (pages : List Nat) : Prop where
  backed : ∀ page ∈ pages, after.Present page ∧ frameOf (after.entry page) < m.pmm.totalFrames ∧
    m.pmm.bitmapTest (frameOf (after.entry page)) = false
  distinct : pages.Pairwise fun first second =>
    frameOf (after.entry first) ≠ frameOf (after.entry second)

/-- The pages that the frames reach for are mapped and unmapped again with no trace. -/
def DryTraceless (m : Mm) (pages : List Nat) : Prop :=
  m.pmm.freeFrames < pages.length ∧ ∀ page ∈ pages.take m.pmm.freeFrames, m.Traceless page

theorem unlinked_entry {stuck : Mm} {page : Nat} (left : Unlinked now stuck page) :
    stuck.entry page = 0 :=
  (left.2.2.entry page).trans (if_neg left.1)

theorem unlinked_missing {front rest : List Nat} {page : Nat} {stuck : Mm}
    (progress : Progress m now front) (left : Unlinked now stuck page) :
    m.pmm.freeFrames < (front ++ page :: rest).length + (m.missingTables (front ++ page :: rest)).card ∧
      front.length < m.pmm.freeFrames ∧ ¬ m.HasTable (pdIndex page) := by
  obtain ⟨absent, one, _⟩ := left
  have count := progress.room
  have more := missingTables_prefix m (front ++ [page]) rest
  rw [missingTables_snoc, if_neg (mt (progress.tables _).mpr absent), List.append_assoc,
    List.singleton_append] at more
  refine ⟨?_, by omega, fun table => absent ((progress.tables _).mpr (.inl table))⟩
  rw [List.length_append, List.length_cons]
  omega

/-- Rolling back a page that was never mapped frees frame 0. -/
theorem unlinked_rollback {front : List Nat} {page : Nat} {stuck : Mm}
    (progress : Progress m now front) (left : Unlinked now stuck page)
    (regular : ∀ other ∈ front, pdIndex other ≠ recursivePdIndex)
    (apart : front.Pairwise fun first second => pageOf first ≠ pageOf second) :
    ((front ++ [page]).foldl mmapRollback stuck).pmm.bitmapTest 0 = false := by
  obtain ⟨absent, one, same⟩ := left
  have sound := (same.keeps progress.kept.allocFrame.kept).kept.guarded.toTablesSound
  have back := sound.rollback (fun other member => ⟨regular other member, by
    rw [Present, same.entry]
    exact (progress.backed other member).1⟩) apart
  have empty : (front.foldl mmapRollback stuck).entry page = 0 := by
    rw [back.entries]
    split
    · rfl
    · exact unlinked_entry ⟨absent, one, same⟩
  have nothing : vmmGetPhysical (front.foldl mmapRollback stuck) page = 0 := by
    rw [vmmGetPhysical_eq back.sound, empty]
    rfl
  have some : 0 < (front.foldl mmapRollback stuck).pmm.totalFrames := by
    rw [back.total, same.pmm]
    show 0 < (pmmAllocFrame now.pmm).2.totalFrames
    rw [totalFrames_allocFrame]
    rw [Pmm.freeFrames] at one
    omega
  rw [List.foldl_append, Bool.eq_false_iff]
  intro used
  simp only [List.foldl_cons, List.foldl_nil, mmapRollback, nothing, vmmUnmapPage_pmm,
    bitmapTest_freeFrame] at used
  exact used.2 ⟨some, trivial⟩

/-- The loop maps every page exactly if the frames are enough for the pages and their tables,
and leaves no trace of a failure exactly if the frames run out before any page that would. -/
theorem MmapOutcome.cases_frames {pages : List Nat} {result : Bool × Mm}
    (outcome : MmapOutcome m pages result) (sound : m.TablesSound) (accounted : m.pmm.Accounted)
    (regular : ∀ page ∈ pages, pdIndex page ≠ recursivePdIndex)
    (apart : pages.Pairwise fun first second => pageOf first ≠ pageOf second) :
    (result.1 = true ∧ pages.length ≤ m.pmm.freeFrames ∧ (PagesBacked m result.2 pages ↔
        pages.length + (m.missingTables pages).card ≤ m.pmm.freeFrames)) ∨
      (result.1 = false ∧ m.pmm.freeFrames < pages.length + (m.missingTables pages).card ∧
        (Undone m result.2 ↔ DryTraceless m pages)) := by
  cases outcome with
  | full progress =>
      have count := progress.room
      refine .inl ⟨rfl, by omega, iff_of_true ?_ (by omega)⟩
      exact ⟨fun page member => ⟨(progress.backed page member).1, (progress.backed page member).2.2⟩,
        progress.distinct⟩
  | @dry front rest _ shape more progress none =>
      have count := progress.room
      have few := missingTables_prefix m front rest
      have longer := List.length_pos_iff.mpr more
      have taken : pages.take front.length = front := by rw [shape, List.take_left]
      rw [← shape] at few
      have length : pages.length = front.length + rest.length := by rw [shape, List.length_append]
      refine .inr ⟨rfl, by omega, ?_⟩
      rw [progress.undone_iff sound (fun page member => regular page (by simp [shape, member]))
        (List.pairwise_append.mp (shape ▸ apart)).1]
      constructor
      · intro traceless
        have linked : m.missingTables front = ∅ := by
          refine Finset.eq_empty_of_forall_notMem fun index member => ?_
          obtain ⟨⟨page, own, rfl⟩, absent⟩ := mem_missingTables.mp member
          exact absent (traceless page own).2.1
        rw [linked, Finset.card_empty] at count
        have whole : m.pmm.freeFrames = front.length := by omega
        exact ⟨by omega, by rw [whole, taken]; exact traceless⟩
      · intro dry page member
        refine dry.2 page (List.mem_of_mem_take (i := front.length) ?_)
        rwa [List.take_take, Nat.min_eq_left (by omega), taken]
  | @unlinked front page _ _ shape progress left =>
      obtain ⟨missing, bound, _⟩ := @unlinked_missing _ _ _ [] _ _ progress left
      rw [← shape] at missing
      have length : pages.length = front.length + 1 := by
        rw [shape, List.length_append, List.length_singleton]
      refine .inl ⟨rfl, by omega, iff_of_false (fun given => ?_) (by omega)⟩
      refine (given.backed page (by simp [shape])).1 ?_
      rw [unlinked_entry left, Nat.zero_and]
  | @unlinkedDry front rest page _ stuck shape more progress left =>
      obtain ⟨missing, bound, absent⟩ := @unlinked_missing _ _ _ rest _ _ progress left
      rw [← shape] at missing
      refine .inr ⟨rfl, missing, iff_of_false (fun undone => ?_) fun dry => ?_⟩
      · have used := undone.frames 0
        rw [accounted.zeroUsed (by rw [Pmm.freeFrames] at bound; omega), unlinked_rollback progress left
          (fun other member => regular other (by simp [shape, member]))
          (List.pairwise_append.mp (shape ▸ apart)).1] at used
        cases used
      · obtain ⟨more, extra⟩ := Nat.exists_eq_add_of_lt bound
        refine absent (dry.2 page ?_).2.1
        rw [shape, extra, Nat.add_assoc, List.take_length_add_append, List.take_succ_cons]
        simp

theorem MmapOutcome.others {pages : List Nat} {result : Bool × Mm}
    (outcome : MmapOutcome m pages result) (mapped : result.1 = true) {virt : Nat}
    (regular : pdIndex virt ≠ recursivePdIndex) (off : ∀ page ∈ pages, pageOf virt ≠ pageOf page) :
    result.2.entry virt = m.entry virt := by
  cases outcome with
  | full progress => exact progress.others virt regular off
  | unlinked shape progress left =>
      rw [left.2.2.entry]
      exact progress.others virt regular fun page member => off page (by simp [shape, member])
  | dry => cases mapped
  | unlinkedDry => cases mapped

/-! The call. -/

/-- Page tables and allocator agree, and a page of the user maps a frame that is in use and is
no page table. -/
structure MmapSound (s : UserMemory) : Prop where
  guarded : s.mm.Guarded
  accounted : s.mm.pmm.Accounted
  apart : ∀ virt < 0xC0000000, s.mm.Maps virt s.mm.Harmless
  word : s.nextMmapAddr < 4294967296

/-- The areas are as before; what a slot that is not in use holds is left open. -/
def SameAreas (s after : UserMemory) : Prop :=
  ∀ pid index, (after.processVmas pid index).inUse = (s.processVmas pid index).inUse ∧
    ((s.processVmas pid index).inUse = true → after.processVmas pid index = s.processVmas pid index)

structure MmapUndone (s after : UserMemory) : Prop where
  areas : SameAreas s after
  next : after.nextMmapAddr = s.nextMmapAddr
  mm : Undone s.mm after.mm

/-- Every page of the range is mapped, to a frame of its own that was free. -/
structure MmapBacked (s after : UserMemory) (vaddr length : Nat) : Prop where
  mapped : ∀ a < 4294967296, InRange vaddr length a → vmmIsMapped after.mm a = true
  fresh : ∀ a < 4294967296, InRange vaddr length a →
    vmmGetPhysical after.mm a / 4096 < s.mm.pmm.totalFrames ∧
      s.mm.pmm.bitmapTest (vmmGetPhysical after.mm a / 4096) = false
  distinct : ∀ a < 4294967296, InRange vaddr length a → ∀ b < 4294967296, InRange vaddr length b →
    vmmGetPhysical after.mm a / 4096 = vmmGetPhysical after.mm b / 4096 → a / 4096 = b / 4096

def MmapAtomic (s : UserMemory) (addr length prot flags : Nat) : Prop :=
  let result := sysMmap s addr length prot flags
  (result.1 = mapFailed → MmapUndone s result.2) ∧
    (result.1 ≠ mapFailed → flags &&& mapAnonymous ≠ 0 → MmapBacked s result.2 result.1 length)

def HasVmaSlot (s : UserMemory) : Prop :=
  ∃ pid, getVmaTable s = some pid ∧
    ∃ index < maxVmasPerProc, (s.processVmas pid index).inUse = false

/-- The call is refused at once; or it has no slot or is no anonymous mapping, and does not
move the next address; or it maps whole pages for which the frames are enough with their
tables; or it runs out of frames at a fixed address before it leaves a trace. -/
def MmapCareful (s : UserMemory) (addr length flags : Nat) : Prop :=
  let vaddr := mmapAddress s addr flags
  let pages := pageLoop vaddr (u32 (vaddr + roundLength length))
  ¬ mmapAccepted s addr length flags ∨
    (¬ HasVmaSlot s ∨ flags &&& mapAnonymous = 0) ∧
      (flags &&& mapFixed ≠ 0 ∨ roundLength length = 0) ∨
    HasVmaSlot s ∧ flags &&& mapAnonymous ≠ 0 ∧
      (vaddr % 4096 = 0 ∧ vaddr + roundUp length < 4294967296 ∧
          pages.length + (s.mm.missingTables pages).card ≤ s.mm.pmm.freeFrames ∨
        flags &&& mapFixed ≠ 0 ∧ DryTraceless s.mm pages)

variable {s after : UserMemory} {addr length prot flags : Nat}

theorem vmaCreate_none_iff (start stop : Nat) :
    vmaCreate s start stop prot flags = none ↔ ¬ HasVmaSlot s := by
  unfold vmaCreate HasVmaSlot
  cases getVmaTable s with
  | none => simp
  | some pid =>
      simp only [Option.bind_eq_bind, Option.bind_some, Option.bind_eq_none_iff, Option.pure_def,
        reduceCtorEq, imp_false, Option.some.injEq, exists_eq_left', ← Option.eq_none_iff_forall_ne_some,
        List.find?_eq_none, List.mem_range]
      simp

theorem hasVmaSlot_bump : HasVmaSlot (s.bump length flags) ↔ HasVmaSlot s := by
  obtain ⟨_, areas, pid⟩ := bump_same s length flags
  simp only [HasVmaSlot, getVmaTable, areas, pid]

theorem bump_next_iff (word : s.nextMmapAddr < 4294967296) :
    (s.bump length flags).nextMmapAddr = s.nextMmapAddr ↔
      flags &&& mapFixed ≠ 0 ∨ roundLength length = 0 := by
  have short := roundLength_lt length
  unfold UserMemory.bump
  by_cases fixed : flags &&& mapFixed ≠ 0
  · rw [if_pos fixed]
    exact iff_of_true rfl (.inl fixed)
  · rw [if_neg fixed, or_iff_right fixed]
    show u32 (s.nextMmapAddr + roundLength length) = _ ↔ _
    unfold u32
    omega

theorem sameAreas_refl (s : UserMemory) : SameAreas s s := fun _ _ => ⟨rfl, fun _ => rfl⟩

theorem sameAreas_destroyed {pid index : Nat} {vma : Vma}
    (areas : after.processVmas = (s.setVma pid index vma).processVmas)
    (free : (s.processVmas pid index).inUse = false) : SameAreas s (vmaDestroy after pid index) := by
  intro owner slot
  by_cases own : owner = pid ∧ slot = index
  · obtain ⟨rfl, rfl⟩ := own
    rw [free]
    exact ⟨by simp [vmaDestroy, UserMemory.setVma], fun inUse => by cases inUse⟩
  · have same : (vmaDestroy after pid index).processVmas owner slot = s.processVmas owner slot := by
      simp [vmaDestroy, UserMemory.setVma, own, areas]
    rw [same]
    exact ⟨rfl, fun _ => rfl⟩

/-! The range of a mapping and the pages of the loop. -/

/-- The last address of memory shows the directory, whose frame is in use. -/
theorem MmapSound.not_last (sound : MmapSound s) (same : after.mm = s.mm) {vaddr : Nat}
    (last : InRange vaddr length 0xFFFFFFFF) : ¬ MmapBacked s after vaddr length := by
  intro backed
  have tables := sound.guarded.toTablesSound
  have shown : s.mm.entry 0xFFFFFFFF = s.mm.pde recursivePdIndex :=
    @TablesSound.entry_window _ tables 0xFFFFFFFF (by decide)
  have isFree := (backed.fresh _ (by decide) last).2
  rw [same, physical_frame tables, shown, if_neg tables.present] at isFree
  exact Bool.eq_false_iff.mp isFree (sound.guarded.reserved recursivePdIndex (by decide) tables.present).2

theorem mmapBacked_iff (tables : after.mm.TablesSound) {vaddr : Nat} (aligned : vaddr % 4096 = 0)
    (unwrapped : vaddr + roundUp length < 4294967296) :
    MmapBacked s after vaddr length ↔
      PagesBacked s.mm after.mm (pageLoop vaddr (vaddr + roundUp length)) := by
  have whole : (vaddr + roundUp length) % 4096 = 0 := by
    unfold roundUp
    omega
  have range : ∀ {a : Nat}, a < 4294967296 → (InRange vaddr length a ↔
      ∃ page ∈ pageLoop vaddr (vaddr + roundUp length), pageOf a = pageOf page) := fun word =>
    (exists_page_iff aligned whole unwrapped word).symm
  have small : ∀ page ∈ pageLoop vaddr (vaddr + roundUp length), page < 4294967296 :=
    fun page member => Nat.lt_trans (mem_pageLoop.mp member).2.1 unwrapped
  have frame : ∀ {a page : Nat}, pageOf a = pageOf page → after.mm.Present page →
      vmmGetPhysical after.mm a / 4096 = frameOf (after.mm.entry page) := by
    intro a page same present
    rw [physical_frame tables, entry_congr _ same, if_neg present]
  constructor
  · intro backed
    have present : ∀ page ∈ pageLoop vaddr (vaddr + roundUp length), after.mm.Present page := by
      intro page member
      exact (vmmIsMapped_iff tables page).mp
        (backed.mapped page (small page member) ((range (small page member)).mpr ⟨page, member, rfl⟩))
    refine ⟨fun page member => ?_, (pageLoop_ascending unwrapped).imp_of_mem ?_⟩
    · have fresh := backed.fresh page (small page member)
        ((range (small page member)).mpr ⟨page, member, rfl⟩)
      rw [frame rfl (present page member)] at fresh
      exact ⟨present page member, fresh⟩
    · intro first second firstMember secondMember order same
      rw [← frame rfl (present first firstMember), ← frame rfl (present second secondMember)] at same
      have one := backed.distinct first (small first firstMember)
        ((range (small first firstMember)).mpr ⟨first, firstMember, rfl⟩) second
        (small second secondMember)
        ((range (small second secondMember)).mpr ⟨second, secondMember, rfl⟩) same
      rw [pageOf_word (small first firstMember), pageOf_word (small second secondMember), one] at order
      exact Nat.lt_irrefl _ order
  · intro backed
    refine ⟨fun a word inside => ?_, fun a word inside => ?_,
      fun a word inside b otherWord otherInside same => ?_⟩
    · obtain ⟨page, member, own⟩ := (range word).mp inside
      rw [vmmIsMapped_iff tables, entry_congr _ own]
      exact (backed.backed page member).1
    · obtain ⟨page, member, own⟩ := (range word).mp inside
      rw [frame own (backed.backed page member).1]
      exact (backed.backed page member).2
    · obtain ⟨first, firstMember, firstOwn⟩ := (range word).mp inside
      obtain ⟨second, secondMember, secondOwn⟩ := (range otherWord).mp otherInside
      rw [frame firstOwn (backed.backed first firstMember).1,
        frame secondOwn (backed.backed second secondMember).1] at same
      rw [← pageOf_word word, ← pageOf_word otherWord, firstOwn, secondOwn]
      have symmetric : Std.Symm fun first second =>
        frameOf (after.mm.entry first) ≠ frameOf (after.mm.entry second) := ⟨fun _ _ => Ne.symm⟩
      by_contra apart
      exact backed.distinct.forall firstMember secondMember (fun one => apart (congrArg pageOf one)) same

/-- An unaligned range ends in a page that the loop does not reach. -/
theorem MmapSound.not_unaligned (sound : MmapSound s) {vaddr : Nat} (unaligned : vaddr % 4096 ≠ 0)
    (nonempty : length ≠ 0) (user : vaddr + roundUp length ≤ 0x80000000)
    (tables : after.mm.TablesSound)
    (kept : ∀ virt, pdIndex virt ≠ recursivePdIndex →
      (∀ page ∈ pageLoop vaddr (vaddr + roundUp length), pageOf virt ≠ pageOf page) →
      after.mm.entry virt = s.mm.entry virt) : ¬ MmapBacked s after vaddr length := by
  intro backed
  have whole : roundUp length % 4096 = 0 ∧ 0 < roundUp length := by
    unfold roundUp
    omega
  have last : InRange vaddr length (vaddr + roundUp length - 1) := by
    unfold InRange
    omega
  have same := kept (vaddr + roundUp length - 1) (user_ne_recursive (by omega)) fun page member own => by
    have inside := mem_pageLoop.mp member
    rw [pageOf_word (by omega), pageOf_word (by omega)] at own
    omega
  have present := (vmmIsMapped_iff tables _).mp (backed.mapped _ (by omega) last)
  have isFree := (backed.fresh _ (by omega) last).2
  rw [physical_frame tables, if_neg present, same] at isFree
  rw [same] at present
  exact Bool.eq_false_iff.mp isFree (sound.apart _ (by omega) present).2

section Area

variable {pid index : Nat} {vma : Vma}

theorem undone_destroyed_iff (word : s.nextMmapAddr < 4294967296)
    (free : (s.processVmas pid index).inUse = false) (mm : Mm) :
    MmapUndone s (vmaDestroy { (s.bump length flags).setVma pid index vma with mm } pid index) ↔
      (flags &&& mapFixed ≠ 0 ∨ roundLength length = 0) ∧ Undone s.mm mm := by
  obtain ⟨_, areas, _⟩ := bump_same s length flags
  rw [← bump_next_iff word]
  refine ⟨fun undone => ⟨undone.next, undone.mm⟩, fun undone => ⟨?_, undone.1, undone.2⟩⟩
  refine @sameAreas_destroyed s _ pid index vma ?_ free
  simp only [UserMemory.setVma, areas]

/-- A range that wraps has no pages, and the call claims to have mapped it. -/
theorem MmapSound.not_wrapped (sound : MmapSound s) {vaddr : Nat} (word : vaddr < 4294967296)
    (wraps : ¬ vaddr + roundUp length < 4294967296) (sameMm : after.mm = s.mm)
    (inUse : (after.processVmas pid index).inUse = true)
    (free : (s.processVmas pid index).inUse = false) :
    ¬ ((vaddr = mapFailed → MmapUndone s after) ∧
      (vaddr ≠ mapFailed → MmapBacked s after vaddr length)) := by
  rintro ⟨undone, backed⟩
  by_cases failed : vaddr = mapFailed
  · have slot := ((undone failed).areas pid index).1
    rw [inUse, free] at slot
    cases slot
  · refine sound.not_last sameMm ⟨?_, ?_⟩ (backed failed)
    · omega
    · omega

theorem mapArea_eq {made : UserMemory} {vaddr stop : Nat} {loop : Bool × Mm}
    (looped : mmapPages vaddr (pageLoop vaddr stop) made.mm = loop) :
    made.mapArea pid index vaddr stop =
      if loop.1 then { made with mm := loop.2 } else vmaDestroy { made with mm := loop.2 } pid index := by
  rw [UserMemory.mapArea, looped]

theorem MmapSound.mapArea_iff (sound : MmapSound s) {vaddr : Nat} (word : vaddr < 4294967296)
    (short : length < 4294967296) (nonempty : length ≠ 0) {pages : List Nat}
    (below : u32 (vaddr + roundLength length) ≤ userMmapEnd)
    (pagesEq : pageLoop vaddr (u32 (vaddr + roundLength length)) = pages)
    (free : (s.processVmas pid index).inUse = false) (inUse : vma.inUse = true) {loop : Bool × Mm}
    (looped : mmapPages vaddr pages s.mm = loop) {result : Nat}
    (resultEq : (if loop.1 then vaddr else mapFailed) = result)
    (afterEq : ((s.bump length flags).setVma pid index vma).mapArea pid index vaddr
      (u32 (vaddr + roundLength length)) = after) :
    ((result = mapFailed → MmapUndone s after) ∧
        (result ≠ mapFailed → MmapBacked s after result length)) ↔
      vaddr % 4096 = 0 ∧ vaddr + roundUp length < 4294967296 ∧
          pages.length + (s.mm.missingTables pages).card ≤ s.mm.pmm.freeFrames ∨
        flags &&& mapFixed ≠ 0 ∧ DryTraceless s.mm pages := by
  have mm : ((s.bump length flags).setVma pid index vma).mm = s.mm := (bump_same s length flags).1
  rw [mapArea_eq (by rw [mm, pagesEq, looped])] at afterEq
  by_cases unwrapped : vaddr + roundUp length < 4294967296
  · rw [unwrapped_stop unwrapped] at below pagesEq
    have user : vaddr + roundUp length ≤ 0x80000000 := below
    have inside : ∀ page ∈ pages, page < 0x80000000 := fun page member =>
      Nat.lt_of_lt_of_le (mem_pageLoop.mp (pagesEq ▸ member)).2.1 user
    have outcome : MmapOutcome s.mm (pageLoop vaddr (vaddr + roundUp length)) _ := mmapPages_outcome
      ⟨sound.guarded, sound.accounted, by simp, fun _ _ _ => Nat.zero_le _⟩ sound.apart user
    have confined : Confined s.mm (mmapPages vaddr (pageLoop vaddr (vaddr + roundUp length)) s.mm).2 :=
      mmapPages_confined sound.guarded user fun _ page member => by
        have below := inside page (pagesEq ▸ member)
        exact sound.apart _ (by omega)
    rw [pagesEq, looped] at outcome confined
    have tables := confined.guarded.toTablesSound
    rcases outcome.cases_frames sound.guarded.toTablesSound sound.accounted
      (fun page member => user_ne_recursive (Nat.lt_trans (inside page member) (by decide)))
      (pagesEq ▸ (pageLoop_ascending unwrapped).imp fun order => Nat.ne_of_lt order) with
      ⟨mapped, enough, backed⟩ | ⟨failed, short, undone⟩
    · rw [if_pos mapped] at resultEq afterEq
      subst resultEq afterEq
      have proper : vaddr ≠ mapFailed := by
        simp only [mapFailed]
        omega
      rw [and_iff_right fun failed => absurd failed proper, forall_prop_of_true proper,
        or_iff_left fun dry => Nat.not_lt_of_le enough dry.2.1]
      by_cases aligned : vaddr % 4096 = 0
      · rw [and_iff_right aligned, and_iff_right unwrapped, ← backed, ← pagesEq]
        exact mmapBacked_iff tables aligned unwrapped
      · refine iff_of_false (sound.not_unaligned aligned nonempty user tables ?_) fun all => aligned all.1
        exact fun virt regular off => outcome.others mapped regular (pagesEq ▸ off)
    · rw [if_neg (by simp [failed])] at resultEq afterEq
      subst resultEq afterEq
      have positive : roundLength length ≠ 0 := by
        rw [roundLength_roundUp (by unfold roundUp at unwrapped; omega)]
        unfold roundUp
        omega
      rw [forall_prop_of_true rfl, and_iff_left fun other => absurd rfl other,
        undone_destroyed_iff sound.word free, or_iff_left positive, undone,
        or_iff_right fun all => Nat.not_lt_of_le all.2.2 short]
  · have none : pages = [] := pagesEq ▸ pageLoop_nil (wraps_back word short unwrapped)
    rw [none] at looped ⊢
    subst looped
    rw [mmapPages, if_pos rfl] at resultEq afterEq
    subst resultEq afterEq
    refine iff_of_false (sound.not_wrapped word unwrapped rfl ?_ free) ?_
    · exact (congrArg Vma.inUse (if_pos ⟨rfl, rfl⟩)).trans inUse
    · rintro (all | dry)
      · exact unwrapped all.2.1
      · exact Nat.not_lt_zero _ dry.2.1

end Area

/-- A failure undoes everything and a mapping is complete exactly if the call is careful. -/
theorem sysMmap_atomic_iff (sound : MmapSound s) (addrWord : addr < 4294967296)
    (short : length < 4294967296) (prot flags : Nat) :
    MmapAtomic s addr length prot flags ↔ MmapCareful s addr length flags := by
  obtain ⟨bumpMm, bumpAreas, bumpPid⟩ := bump_same s length flags
  have same : Undone s.mm s.mm := ⟨fun _ => rfl, fun _ => rfl⟩
  have failed : ∀ {undone backed : Prop},
      ((mapFailed = mapFailed → undone) ∧ (mapFailed ≠ mapFailed → backed)) ↔ undone :=
    ⟨fun both => both.1 rfl, fun undone => ⟨fun _ => undone, fun other => absurd rfl other⟩⟩
  unfold MmapAtomic MmapCareful
  dsimp only
  rcases sysMmap_results s addr length prot flags with ⟨refused, result⟩ | ⟨accepted, noSlot | made⟩
  · rw [result]
    exact failed.trans (iff_of_true ⟨sameAreas_refl s, rfl, same⟩ (.inl refused))
  · have slot := mt hasVmaSlot_bump.mpr ((vmaCreate_none_iff _ _).mp noSlot.1)
    rw [noSlot.2, ← bump_next_iff sound.word]
    refine failed.trans ⟨fun undone => .inr (.inl ⟨.inl slot, undone.next⟩), fun careful => ?_⟩
    rcases careful with refused | ⟨_, next⟩ | ⟨found, _⟩
    · exact absurd accepted refused
    · refine ⟨fun pid index => ?_, next, bumpMm.symm ▸ same⟩
      rw [bumpAreas]
      exact ⟨rfl, fun _ => rfl⟩
    · exact absurd found slot
  obtain ⟨pid, index, made, created, outcome⟩ := made
  have slot : HasVmaSlot s := by
    by_contra none
    rw [(vmaCreate_none_iff _ _).mpr (mt hasVmaSlot_bump.mp none)] at created
    cases created
  obtain ⟨_, _, free, vma, ⟨inUse, _⟩, rfl⟩ := vmaCreate_eq_some created
  have madeMm : ((s.bump length flags).setVma pid index vma).mm = s.mm := bumpMm
  rw [bumpAreas] at free
  rcases outcome with ⟨plain, result⟩ | ⟨anonymous, result⟩
  · have destroyed := @undone_destroyed_iff s length flags pid index vma sound.word free s.mm
    rw [and_iff_left same, ← madeMm] at destroyed
    rw [result]
    refine failed.trans (destroyed.trans ⟨fun kept => .inr (.inl ⟨.inr plain, kept⟩), fun careful => ?_⟩)
    rcases careful with refused | ⟨_, kept⟩ | ⟨_, anonymous, _⟩
    · exact absurd accepted refused
    · exact kept
    · exact absurd plain anonymous
  · have word : mmapAddress s addr flags < 4294967296 := by
      rw [mmapAddress]
      split
      · exact addrWord
      · exact sound.word
    rw [madeMm] at result
    rw [result]
    refine (and_congr_right fun _ => forall_congr' fun _ => forall_prop_of_true anonymous).trans
      ((sound.mapArea_iff word short accepted.1 (Nat.le_of_not_lt fun beyond =>
        accepted.2 (.inr beyond)) rfl free inUse rfl rfl rfl).trans ⟨fun all => ?_, fun careful => ?_⟩)
    · exact .inr (.inr ⟨slot, anonymous, all⟩)
    · rcases careful with refused | ⟨noArea, _⟩ | all
      · exact absurd accepted refused
      · exact (noArea.elim (absurd slot) anonymous).elim
      · exact all.2.2

theorem smallMemory_mmapSound : MmapSound smallMemory := by
  refine ⟨smallMemory_guarded, pmmInit_accounted _ _, fun virt user present => ?_, by decide⟩
  exact absurd (hasTable_of_mapped present) (smallMemory_noTables _ (pdIndex_user user))

theorem sysMmap_atomic_small : MmapAtomic smallMemory 0 8192 3 0x22 := by
  refine (sysMmap_atomic_iff smallMemory_mmapSound (by decide) (by decide) 3 0x22).mpr
    (.inr (.inr ⟨⟨1, rfl, 0, by decide, rfl⟩, by decide, .inl ⟨by decide, by decide, ?_⟩⟩))
  decide

/-- A machine with one free frame. -/
def oneFrame : UserMemory := .start (bootMm (pmmInit ⟨1, 8⟩ 0x100000) 5 6) (some 1)

/-- A file mapping fails with the next address moved on, and the last frame goes to a page that
stays unmapped while the call returns its address. -/
theorem sysMmap_leaves_traces :
    ¬ MmapAtomic smallMemory 0 4096 3 2 ∧ ¬ MmapAtomic oneFrame 0 4096 3 0x22 := by
  constructor
  · intro atomic
    have next := (atomic.1 (by decide)).next
    revert next
    decide
  · intro atomic
    have mapped := (atomic.2 (by decide) (by decide)).mapped 0x40000000 (by decide)
      (by decide)
    revert mapped
    decide

end ZurichOS
