import ZurichOS.FrameConservation
import ZurichOS.HeapCore
import ZurichOS.PageRange
import ZurichOS.SharedMemory

set_option linter.all false

/-!
The edits of the page tables and of the allocator under which the first frames of memory
stay in use: no user page maps one of them, so none is freed as a user page's frame.
-/

namespace ZurichOS

open Words ByteBuffer

/-! The frame that is handed out is the first free one. -/

theorem scanBit_none {pmm : Pmm} {frame : Nat}
    (passed : (if pmm.totalFrames ≤ frame then some none
      else if pmm.bitmapTest frame then none else some (some frame)) = none) :
    pmm.bitmapTest frame = true := by
  split at passed
  · cases passed
  · split at passed
    · assumption
    · cases passed

theorem Pmm.Accounted.scan_lowest {pmm : Pmm} (accounted : pmm.Accounted) {found frame : Nat}
    (scan : pmmScan pmm = some (some found)) (below : frame < found) :
    pmm.bitmapTest frame = true := by
  have fits := accounted.fits
  obtain ⟨index, indexBound, returned, earlier⟩ := (findSome_range_eq_some _ _ _).mp scan
  split at returned
  · cases returned
  obtain ⟨offset, offsetBound, here, before⟩ := (findSome_range_eq_some _ _ _).mp returned
  have position : found = index * 32 + offset := by
    dsimp only at here
    split at here
    · cases here
    split at here
    · cases here
    rw [u32_eq_of_lt (by omega)] at here
    exact (Option.some.inj (Option.some.inj here)).symm
  have whole : u32 (frame / 32 * 32 + frame % 32) = frame := by
    rw [Nat.div_add_mod', u32_eq_of_lt (by omega)]
  by_cases sameWord : frame / 32 = index
  · have passed := before (frame % 32) (by omega)
    rw [← sameWord, whole] at passed
    exact scanBit_none passed
  · have quiet := earlier (frame / 32) (by omega)
    split at quiet
    · rename_i full
      exact PackedBitmap.test_allOnes (by omega) pmm.bitmap frame full
    · have passed := (findSome_range_eq_none _ _).mp quiet (frame % 32) (by omega)
      rw [whole] at passed
      exact scanBit_none passed

theorem Pmm.Accounted.allocFrame_lowest {pmm : Pmm} (accounted : pmm.Accounted)
    (success : (pmmAllocFrame pmm).1 ≠ 0) {frame : Nat} (below : frame < (pmmAllocFrame pmm).1 / 4096) :
    pmm.bitmapTest frame = true := by
  have small := accounted.small
  unfold pmmAllocFrame at success below
  split at success
  · exact absurd rfl success
  rename_i room
  rw [if_neg room] at below
  split at success
  · rename_i found scan
    rw [scan] at below
    dsimp only at below
    have foundBound := (pmmScan_found scan).1
    rw [u32_eq_of_lt (by omega), Nat.mul_div_cancel _ (by decide)] at below
    exact accounted.scan_lowest scan below
  · exact absurd rfl success

namespace Mm

/-- The first `reserved` frames are in use, and no user page maps one of them. -/
structure ReservedKept (reserved : Nat) (m : Mm) : Prop where
  guarded : m.Guarded
  accounted : m.pmm.Accounted
  used : ∀ frame < reserved, m.pmm.bitmapTest frame = true
  apart : ∀ virt < 0xC0000000, m.Maps virt fun frame => reserved ≤ frame

/-- An edit that frees nothing. -/
structure KeepsReserved (reserved : Nat) (m after : Mm) : Prop where
  kept : ReservedKept reserved after
  harmless : ∀ frame, m.Harmless frame → after.Harmless frame

section Edits

variable {reserved : Nat} {m after : Mm}

theorem ReservedKept.refl (kept : ReservedKept reserved m) : KeepsReserved reserved m m :=
  ⟨kept, fun _ same => same⟩

theorem KeepsReserved.trans {middle : Mm} (first : KeepsReserved reserved m middle)
    (second : KeepsReserved reserved middle after) : KeepsReserved reserved m after :=
  ⟨second.kept, fun frame same => second.harmless frame (first.harmless frame same)⟩

theorem ReservedKept.allocFrame (kept : ReservedKept reserved m) :
    KeepsReserved reserved m { m with pmm := (pmmAllocFrame m.pmm).2 } := by
  exact ⟨⟨kept.guarded.allocFrame.guarded, kept.accounted.allocFrame,
    fun frame below => allocFrame_keeps (kept.used frame below), kept.apart⟩,
    fun frame harmless => ⟨harmless.1, allocFrame_keeps harmless.2⟩⟩

theorem ReservedKept.beyond (kept : ReservedKept reserved m) (success : (pmmAllocFrame m.pmm).1 ≠ 0) :
    reserved ≤ (pmmAllocFrame m.pmm).1 / 4096 := by
  have takes := kept.accounted.takes success
  apply Nat.le_of_not_lt
  intro below
  cases takes.isFree.symm.trans (kept.used _ below)

theorem ReservedKept.freeFrame (kept : ReservedKept reserved m) (positive : 0 < reserved) {addr : Nat}
    (beyond : reserved ≤ addr / 4096) (fresh : m.FreshTable (addr / 4096)) :
    ReservedKept reserved { m with pmm := pmmFreeFrame m.pmm addr } := by
  refine ⟨(kept.guarded.freeFrame fresh).guarded, kept.accounted.freeFrame (by omega),
    fun frame below => ?_, kept.apart⟩
  exact freeFrame_keeps (kept.used frame below) (by omega)

theorem ReservedKept.freeFrames (kept : ReservedKept reserved m) (positive : 0 < reserved)
    {addrs : List Nat} (beyond : ∀ addr ∈ addrs, reserved ≤ addr / 4096)
    (fresh : ∀ addr ∈ addrs, m.FreshTable (addr / 4096)) :
    ReservedKept reserved { m with pmm := addrs.foldl pmmFreeFrame m.pmm } := by
  induction addrs generalizing m with
  | nil => exact kept
  | cons addr rest ih =>
      exact ih (kept.freeFrame positive (beyond addr (by simp)) (fresh addr (by simp)))
        (fun other member => beyond other (by simp [member]))
        fun other member => fresh other (by simp [member])

theorem SameFrames.keeps (same : SameFrames m after) (kept : ReservedKept reserved m) :
    KeepsReserved reserved m after := by
  refine ⟨⟨same.guarded kept.guarded, ?_, ?_, fun virt user => ?_⟩, fun frame harmless => ?_⟩
  · rw [same.pmm]
    exact kept.accounted
  · rw [same.pmm]
    exact kept.used
  · rw [Maps, same.entry]
    exact kept.apart virt user
  · exact ⟨(same.freshTable frame).mpr harmless.1, by rw [same.pmm]; exact harmless.2⟩

/-- What a call of `vmm_map_page` outside the window comes to: if a table is missing and no
frame is left for one, nothing. -/
structure PageMapped (reserved : Nat) (m after : Mm) (virt phys flags : Nat) : Prop
    extends KeepsReserved reserved m after where
  others : ∀ other, pdIndex other ≠ recursivePdIndex → pageOf other ≠ pageOf virt →
    after.entry other = m.entry other
  own : after.entry virt = 0 ∨ after.entry virt = tableEntry phys flags
  linked : m.HasTable (pdIndex virt) ∨ m.pmm.freeFrames ≠ 0 →
    after.entry virt = tableEntry phys flags ∧
      after.pmm.freeFrames = m.pmm.freeFrames - (if m.HasTable (pdIndex virt) then 0 else 1) ∧
      after.room.linked = Function.update m.room.linked (pdIndex virt) true

theorem ReservedKept.mapPage (kept : ReservedKept reserved m) {virt phys : Nat}
    (outside : pdIndex virt ≠ recursivePdIndex) (beyond : reserved ≤ frameOf phys) (flags : Nat) :
    PageMapped reserved m (vmmMapPage m virt phys flags) virt phys flags := by
  have sound := kept.guarded.toTablesSound
  have pmm := vmmMapPage_pmm sound virt phys flags
  by_cases unlinked : ¬ m.HasTable (pdIndex virt) ∧ (pmmAllocFrame m.pmm).1 = 0
  · rw [vmmMapPage_failed sound phys flags unlinked.1 unlinked.2]
    refine ⟨kept.allocFrame, fun _ _ _ => rfl, .inl (if_neg unlinked.1), fun some => ?_⟩
    exact absurd (kept.accounted.allocFrame_dry_iff.mp unlinked.2) (some.resolve_left unlinked.1)
  · have success : ¬ m.HasTable (pdIndex virt) → (pmmAllocFrame m.pmm).1 ≠ 0 :=
      fun absent failed => unlinked ⟨absent, failed⟩
    have set := vmmMapPage_setsEntry sound outside phys flags fun absent =>
      ⟨success absent, (kept.guarded.allocFrame_success (success absent)).2.2.1⟩
    obtain ⟨guarded, harmless⟩ := set.guarded kept.guarded pmm success
    have own : (vmmMapPage m virt phys flags).entry virt = tableEntry phys flags :=
      (set.entry_eq outside).trans (if_pos rfl)
    have others : ∀ other, pdIndex other ≠ recursivePdIndex → pageOf other ≠ pageOf virt →
        (vmmMapPage m virt phys flags).entry other = m.entry other :=
      fun other off apart => (set.entry_eq off).trans (if_neg apart)
    have counted : (vmmMapPage m virt phys flags).pmm.Accounted ∧
        (vmmMapPage m virt phys flags).pmm.freeFrames =
          m.pmm.freeFrames - if m.HasTable (pdIndex virt) then 0 else 1 := by
      rw [pmm]
      by_cases table : m.HasTable (pdIndex virt)
      · rw [if_pos table, if_pos table]
        exact ⟨kept.accounted, rfl⟩
      · rw [if_neg table, if_neg table]
        exact ⟨kept.accounted.allocFrame, (kept.accounted.takes (success table)).room⟩
    refine ⟨⟨⟨guarded, counted.1, fun frame below => ?_, fun other user => ?_⟩, harmless⟩,
      others, .inr own, fun _ => ⟨own, counted.2, set.linked_update⟩⟩
    · have used := kept.used frame below
      rw [pmm]
      split
      · exact used
      · exact allocFrame_keeps used
    · by_cases page : pageOf other = pageOf virt
      · intro _
        rw [entry_congr _ page, own, frameOf, tableEntry_page]
        exact beyond
      · exact (kept.apart other user).of_entry (fun _ same => same)
          (.inl (others other (user_ne_recursive user) page))

/-- Pages taken away or given other flags, and frames freed that are no page tables. -/
theorem ReservedKept.shrink (kept : ReservedKept reserved m) (sound : after.TablesSound)
    (entries : ∀ virt, after.Present virt →
      m.Present virt ∧ frameOf (after.entry virt) = frameOf (m.entry virt))
    (accounted : after.pmm.Accounted) (total : after.pmm.totalFrames = m.pmm.totalFrames)
    (bits : ∀ frame, m.pmm.bitmapTest frame = true →
      after.pmm.bitmapTest frame = true ∨ reserved ≤ frame ∧ m.FreshTable frame) :
    ReservedKept reserved after ∧ ∀ frame, m.FreshTable frame → after.FreshTable frame := by
  -- The window shows the directory, so its slots are entries too.
  have shown : ∀ {other : Mm}, other.TablesSound → ∀ index < 1024,
      other.entry (0xFFC00000 + index * 4096) = other.pde index := by
    intro other sound index bound
    have window : pdIndex (0xFFC00000 + index * 4096) = recursivePdIndex := by
      rw [pdIndex_eq]
      simp only [recursivePdIndex]
      omega
    rw [sound.entry_window window, ptIndex_eq, show (0xFFC00000 + index * 4096) / 4096 % 1024 = index
      by omega]
  have tables : ∀ index < 1024, after.HasTable index →
      m.HasTable index ∧ frameOf (after.pde index) = frameOf (m.pde index) := by
    intro index bound table
    have same := entries (0xFFC00000 + index * 4096)
    rw [Present, Present, shown sound index bound, shown kept.guarded.toTablesSound index bound]
      at same
    exact same table
  refine ⟨⟨⟨sound, fun index bound table => ?_, total ▸ kept.guarded.memory⟩, accounted,
    fun frame below => ?_, fun virt user present => ?_⟩, fun frame fresh index bound table => ?_⟩
  · obtain ⟨before, same⟩ := tables index bound table
    obtain ⟨nonzero, used⟩ := kept.guarded.reserved index bound before
    rw [same]
    refine ⟨nonzero, (bits _ used).resolve_right fun freed => ?_⟩
    exact freed.2 index bound before rfl
  · exact (bits frame (kept.used frame below)).resolve_right fun freed => by omega
  · obtain ⟨before, same⟩ := entries virt present
    rw [same]
    exact kept.apart virt user before
  · obtain ⟨before, same⟩ := tables index bound table
    rw [same]
    exact fresh index bound before

/-- A page of a private area is below the kernel and maps no page table. -/
def Unmappable (shared : Bool) (m : Mm) (page : Nat) : Prop :=
  shared = false → page < 0xC0000000 ∧ m.Maps page m.FreshTable

theorem ReservedKept.munmapPage (kept : ReservedKept reserved m) (positive : 0 < reserved)
    {shared : Bool} {page : Nat} (below : pageOf page < 0xFFFFF) (free : Unmappable shared m page) :
    ReservedKept reserved (ZurichOS.munmapPage shared m page) ∧
      ∀ other, Unmappable shared m other →
        Unmappable shared (ZurichOS.munmapPage shared m page) other := by
  have unmapped := kept.guarded.toTablesSound.munmapPage shared below
  have entries : ∀ virt, (ZurichOS.munmapPage shared m page).Present virt →
      (ZurichOS.munmapPage shared m page).entry virt = m.entry virt := by
    intro virt present
    refine unmapped.kept virt fun touched => unmapped.gone virt touched present
  have accounted : (ZurichOS.munmapPage shared m page).pmm.Accounted := by
    simp only [ZurichOS.munmapPage]
    split
    · rename_i mapped
      have present := (vmmIsMapped_iff kept.guarded.toTablesSound page).mp mapped
      cases shared with
      | true =>
          rw [if_pos rfl, vmmUnmapPage_pmm]
          exact kept.accounted
      | false =>
          rw [if_neg Bool.false_ne_true, vmmUnmapPage_pmm]
          refine kept.accounted.freeFrame ?_
          rw [physical_frame kept.guarded.toTablesSound, if_neg present]
          exact Nat.ne_of_gt (Nat.lt_of_lt_of_le positive (kept.apart page (free rfl).1 present))
    · exact kept.accounted
  have shrunk := kept.shrink unmapped.sound (fun virt present => ?_) accounted
    unmapped.total fun frame used => ?_
  · refine ⟨shrunk.1, fun other free isPrivate => ⟨(free isPrivate).1, fun present => ?_⟩⟩
    have same := entries other present
    rw [same] at present ⊢
    exact shrunk.2 _ ((free isPrivate).2 present)
  · have same := entries virt present
    exact ⟨by rw [Present, ← same]; exact present, by rw [same]⟩
  · by_cases still : (ZurichOS.munmapPage shared m page).pmm.bitmapTest frame = true
    · exact .inl still
    · rw [unmapped.used, not_and, not_not] at still
      obtain ⟨isPrivate, _, other, member, present, rfl⟩ := still used
      cases List.mem_singleton.mp member
      exact .inr ⟨kept.apart page (free isPrivate).1 present, (free isPrivate).2 present⟩

theorem ReservedKept.munmapPages (kept : ReservedKept reserved m) (positive : 0 < reserved)
    {shared : Bool} {pages : List Nat} (below : ∀ page ∈ pages, pageOf page < 0xFFFFF)
    (free : ∀ page ∈ pages, Unmappable shared m page) :
    ReservedKept reserved (pages.foldl (ZurichOS.munmapPage shared) m) := by
  induction pages generalizing m with
  | nil => exact kept
  | cons page rest ih =>
      obtain ⟨after, later⟩ := kept.munmapPage positive (below page (by simp)) (free page (by simp))
      exact ih after (fun other member => below other (by simp [member]))
        fun other member => later other (free other (by simp [member]))

theorem ReservedKept.mprotectPages (kept : ReservedKept reserved m) {flags : Nat}
    (user : flags &&& pageUser ≠ 0) {pages : List Nat} (below : ∀ page ∈ pages, pageOf page < 0xFFFFF) :
    ReservedKept reserved (pages.foldl (ZurichOS.mprotectPage flags) m) := by
  have done := mprotectPages_reprotected kept.guarded.toTablesSound user below
  refine (kept.shrink done.sound (fun virt present => ?_) ?_ ?_ fun frame used => ?_).1
  · exact ⟨(done.present virt).mp present, done.frame virt⟩
  · exact done.pmm ▸ kept.accounted
  · rw [done.pmm]
  · exact .inl (by rw [done.pmm]; exact used)

theorem ReservedKept.unmapPage (kept : ReservedKept reserved m) {virt : Nat}
    (outside : pdIndex virt ≠ recursivePdIndex) :
    KeepsReserved reserved m (vmmUnmapPage m virt) := by
  have run := kept.guarded.unmapPage_kept kept.accounted outside
  have pmm := vmmUnmapPage_pmm m virt
  refine ⟨⟨run.guarded, run.accounted, pmm ▸ kept.used, fun other user => ?_⟩, run.harmless⟩
  refine (kept.apart other user).of_entry (fun _ same => same) ?_
  by_cases linked : m.HasTable (pdIndex virt)
  · rw [(vmmUnmapPage_setsEntry kept.guarded.toTablesSound outside linked).entry_eq
      (user_ne_recursive user)]
    split
    · exact .inr rfl
    · exact .inl rfl
  · rw [vmmUnmapPage_absent kept.guarded.toTablesSound linked]
    exact .inl rfl

/-! A fresh frame given to a page. -/

structure Given (reserved : Nat) (m after : Mm) (page : Nat) : Prop
    extends KeepsReserved reserved m after where
  taken : after.Harmless ((pmmAllocFrame m.pmm).1 / 4096)
  own : after.Maps page after.Harmless
  others : ∀ other, pdIndex other ≠ recursivePdIndex → pageOf other ≠ pageOf page →
    after.entry other = m.entry other
  placed : m.HasTable (pdIndex page) ∨ 1 < m.pmm.freeFrames → after.Present page ∧
    after.pmm.freeFrames = m.pmm.freeFrames - (if m.HasTable (pdIndex page) then 1 else 2) ∧
    after.room.linked = Function.update m.room.linked (pdIndex page) true

theorem ReservedKept.give (kept : ReservedKept reserved m) (success : (pmmAllocFrame m.pmm).1 ≠ 0)
    {page : Nat} (outside : pdIndex page ≠ recursivePdIndex) (flags : Nat) :
    Given reserved m (vmmMapPage { m with pmm := (pmmAllocFrame m.pmm).2 } page
      (pmmAllocFrame m.pmm).1 flags) page := by
  have takes := kept.accounted.takes success
  have taken := kept.allocFrame
  obtain ⟨_, used, fresh, _, _⟩ := kept.guarded.allocFrame_success success
  have mapped := taken.kept.mapPage outside (by
    rw [frameOf_allocFrame]
    exact kept.beyond success) flags
  have given := mapped.harmless _ ⟨fresh, used⟩
  refine ⟨taken.trans mapped.toKeepsReserved, given, fun present => ?_, mapped.others,
    fun enough => ?_⟩
  · rcases mapped.own with absent | set
    · rw [absent] at present
      exact absurd rfl present
    · rw [set, frameOf_tableEntry]
      exact given
  · obtain ⟨own, free, linked⟩ := mapped.linked (enough.imp_right fun two => by
      rw [takes.room]
      omega)
    refine ⟨by rw [Present, own]; exact tableEntry_present _ _, free.trans ?_, linked⟩
    rw [takes.room, Nat.sub_sub]
    show _ - (1 + if m.HasTable (pdIndex page) then 0 else 1) = _
    split <;> rfl

theorem Given.maps {page other : Nat} (given : Given reserved m after page)
    (outside : pdIndex other ≠ recursivePdIndex) (mapped : m.Maps other m.Harmless) :
    after.Maps other after.Harmless := by
  by_cases same : pageOf other = pageOf page
  · rw [Maps, entry_congr _ same]
    exact given.own
  · exact mapped.of_entry given.harmless (.inl (given.others other outside same))

theorem Given.same {page : Nat} {cleared : Mm} (given : Given reserved m after page)
    (same : SameFrames after cleared) : Given reserved m cleared page := by
  have keeps := same.keeps given.kept
  refine ⟨given.toKeepsReserved.trans keeps, keeps.harmless _ given.taken, ?_,
    fun other outside apart => ?_, fun enough => ?_⟩
  · exact given.own.of_entry keeps.harmless (.inl (same.entry page))
  · exact (same.entry other).trans (given.others other outside apart)
  · rw [Present, same.entry, same.pmm, same.room]
    exact given.placed enough

/-! The loops. -/

/-- Of the pages, no one but the last needs a table when one frame is left. -/
def tablesFit : Nat → (Nat → Bool) → List Nat → Bool
  | _, _, [] => true
  | free, linked, page :: rest =>
      free == 0 || rest.isEmpty || (linked (pdIndex page) || decide (1 < free)) &&
        tablesFit (free - if linked (pdIndex page) then 1 else 2)
          (Function.update linked (pdIndex page) true) rest

theorem mmapRollback_eq {page : Nat} (mapped : vmmIsMapped m page = true) :
    mmapRollback m page = ZurichOS.munmapPage false m page :=
  (if_pos mapped).symm

theorem ReservedKept.rollback (kept : ReservedKept reserved m) (positive : 0 < reserved)
    {pages : List Nat} (apart : pages.Pairwise fun first second => first / 4096 ≠ second / 4096)
    (mapped : ∀ page ∈ pages, page < 0xC0000000 ∧ m.Present page ∧ m.Maps page m.FreshTable) :
    ReservedKept reserved (pages.foldl mmapRollback m) := by
  induction pages generalizing m with
  | nil => exact kept
  | cons page rest ih =>
      obtain ⟨others, apart⟩ := List.pairwise_cons.mp apart
      obtain ⟨user, present, own⟩ := mapped page (by simp)
      have sound := kept.guarded.toTablesSound
      have regular := user_ne_recursive user
      have below := pageOf_regular regular
      have unmapped := sound.munmapPage false below
      obtain ⟨after, later⟩ := kept.munmapPage positive below
        (show Unmappable false m page from fun _ => ⟨user, own⟩)
      rw [List.foldl_cons, mmapRollback_eq ((vmmIsMapped_iff sound page).mpr present)]
      refine ih after apart fun other member => ?_
      obtain ⟨otherUser, otherPresent, otherOwn⟩ := mapped other (by simp [member])
      have same : (ZurichOS.munmapPage false m page).entry other = m.entry other := by
        refine unmapped.kept other fun ⟨touching, isPage, touches⟩ => ?_
        cases List.mem_singleton.mp isPage
        rw [touches_regular regular, pageOf_word (by omega), pageOf_word (by omega)] at touches
        exact others other member touches.symm
      refine ⟨otherUser, ?_, (later other (fun _ => ⟨otherUser, otherOwn⟩) rfl).2⟩
      rw [Present, same]
      exact otherPresent

/-- Clearing the page that a round of `mmap` maps writes to no page table. -/
theorem ReservedKept.cleared (kept : ReservedKept reserved m)
    (success : (pmmAllocFrame m.pmm).1 ≠ 0) {page : Nat} (user : page < 0x80000000)
    (spill : page % 4096 ≠ 0 → m.Maps (page + 0x1000) m.Harmless) (flags : Nat) :
    SameFrames (vmmMapPage { m with pmm := (pmmAllocFrame m.pmm).2 } page (pmmAllocFrame m.pmm).1 flags)
      (memsetPage (vmmMapPage { m with pmm := (pmmAllocFrame m.pmm).2 } page
        (pmmAllocFrame m.pmm).1 flags) page) := by
  have given := kept.give success (user_ne_recursive (show page < 0xC0000000 by omega)) flags
  refine given.kept.guarded.memset_same (fun present => (given.own present).1) ?_
  intro unaligned present
  have low : page + 0x1000 < 0xC0000000 := by omega
  exact (given.maps (user_ne_recursive low) (spill unaligned) present).1

theorem ReservedKept.mmapRound (kept : ReservedKept reserved m)
    (success : (pmmAllocFrame m.pmm).1 ≠ 0) {page : Nat} (user : page < 0x80000000)
    (spill : page % 4096 ≠ 0 → m.Maps (page + 0x1000) m.Harmless) (flags : Nat) :
    Given reserved m (memsetPage (vmmMapPage { m with pmm := (pmmAllocFrame m.pmm).2 } page
      (pmmAllocFrame m.pmm).1 flags) page) page :=
  (kept.give success (user_ne_recursive (by omega)) flags).same
    (kept.cleared success user spill flags)

/-- The loop of `mmap`, where what an unaligned range runs on into maps harmless frames. -/
theorem mmapPages_reserved (kept : ReservedKept reserved m) (positive : 0 < reserved)
    {vaddr stop : Nat} (user : stop ≤ 0x80000000)
    (spill : vaddr % 4096 ≠ 0 → ∀ p ∈ pageLoop vaddr stop, m.Maps (p + 0x1000) m.Harmless)
    (fit : tablesFit m.pmm.freeFrames m.room.linked (pageLoop vaddr stop) = true) :
    ReservedKept reserved (mmapPages vaddr (pageLoop vaddr stop) m).2 := by
  have inside : ∀ {pages : List Nat}, pageLoop vaddr stop = pages → ∀ p ∈ pages,
      p < 0x80000000 ∧ (p - vaddr) % 4096 = 0 ∧ vaddr ≤ p := by
    rintro _ rfl p member
    rw [mem_pageLoop] at member
    omega
  have apart : ∀ {front rest : List Nat} {page : Nat}, pageLoop vaddr stop = front ++ page :: rest →
      ∀ p ∈ front, p / 4096 ≠ page / 4096 := fun shape p member =>
    (List.pairwise_append.mp (shape ▸ pageLoop_apart vaddr stop)).2.2 p member _ (by simp)
  -- With no page to come the last one may have stayed unmapped.
  refine mmapPages_rule (fun front rest now => ReservedKept reserved now ∧
    (rest ≠ [] → ∀ p ∈ front, now.Present p ∧ now.Maps p now.Harmless) ∧
      (vaddr % 4096 ≠ 0 → ∀ p ∈ rest, now.Maps (p + 0x1000) now.Harmless) ∧
        tablesFit now.pmm.freeFrames now.room.linked rest = true)
    (fun result => ReservedKept reserved result.2) ?_ ?_ (fun now all => all.1)
    ⟨kept, by simp, spill, fit⟩
  · rintro front page rest now shape ⟨kept, done, later, fit⟩ success
    have low := fun p member => (inside shape p member).1
    have own := inside shape page (by simp)
    have round : Given reserved now (now.mmapStep page) page := kept.mmapRound success own.1
      (fun off => later (by omega) page (by simp)) (pageUser ||| pagePresent ||| pageWrite)
    have some : now.pmm.freeFrames ≠ 0 := fun dry =>
      success (kept.accounted.allocFrame_dry_iff.mpr dry)
    cases rest with
    | nil => exact ⟨round.kept, fun more => absurd rfl more, by simp, rfl⟩
    | cons next others =>
        simp only [tablesFit, some, Bool.or_eq_true, beq_iff_eq, false_or, List.isEmpty_cons,
          Bool.false_eq_true, Bool.and_eq_true, decide_eq_true_eq, room_linked] at fit
        obtain ⟨present, free, linked⟩ := round.placed fit.1
        refine ⟨round.kept, fun _ p member => ?_, fun off p member => ?_, ?_⟩
        · rcases List.mem_append.mp member with earlier | last
          · obtain ⟨before, mapped⟩ := done (by simp) p earlier
            have regular := user_ne_recursive
              (Nat.lt_trans (low p (by simp [earlier])) (show 0x80000000 < 0xC0000000 by decide))
            refine ⟨?_, round.maps regular mapped⟩
            rw [Present, round.others p regular fun same => ?_]
            · exact before
            · rw [pageOf_word (by have := low p (by simp [earlier]); omega),
                pageOf_word (by omega)] at same
              exact apart shape p earlier same
          · cases List.mem_singleton.mp last
            exact ⟨present, round.own⟩
        · have below := low p (by simp [List.mem_cons.mp member])
          exact round.maps (user_ne_recursive (by omega)) (later off p (List.mem_cons_of_mem _ member))
        · rw [free, linked]
          simp only [tablesFit, Bool.or_eq_true, beq_iff_eq, Bool.and_eq_true,
            decide_eq_true_eq, ← room_linked now] at fit ⊢
          exact fit.2
  · rintro front page rest now shape ⟨kept, done, _⟩ failed
    rw [Pmm.allocFrame_dry failed kept.guarded.memory kept.accounted]
    refine kept.rollback positive (List.pairwise_append.mp (shape ▸ pageLoop_apart vaddr stop)).1
      fun p member => ?_
    obtain ⟨present, own⟩ := done (by simp) p member
    exact ⟨Nat.lt_trans (inside shape p (by simp [member])).1 (by decide), present,
      fun mapped => (own mapped).1⟩

/-- A loop that gives a frame to each page and stops when there is none. -/
theorem giveLoop_reserved {loop : List Nat → Mm → Bool × Mm} {flags : Nat}
    (nil : ∀ m, loop [] m = (true, m))
    (cons : ∀ page rest m, loop (page :: rest) m =
      if (pmmAllocFrame m.pmm).1 = 0 then (false, { m with pmm := (pmmAllocFrame m.pmm).2 })
      else loop rest (vmmMapPage { m with pmm := (pmmAllocFrame m.pmm).2 } page
        (pmmAllocFrame m.pmm).1 flags))
    (kept : ReservedKept reserved m) {pages : List Nat}
    (outside : ∀ page ∈ pages, pdIndex page ≠ recursivePdIndex) :
    ReservedKept reserved (loop pages m).2 ∧ ∀ virt, pdIndex virt ≠ recursivePdIndex →
      m.Maps virt m.Harmless → (loop pages m).2.Maps virt (loop pages m).2.Harmless := by
  induction pages generalizing m with
  | nil =>
      rw [nil]
      exact ⟨kept, fun _ _ mapped => mapped⟩
  | cons page rest ih =>
      rw [cons]
      by_cases failed : (pmmAllocFrame m.pmm).1 = 0
      · rw [if_pos failed, Pmm.allocFrame_dry failed kept.guarded.memory kept.accounted]
        exact ⟨kept, fun _ _ mapped => mapped⟩
      · rw [if_neg failed]
        have given := kept.give failed (outside page (by simp)) flags
        obtain ⟨after, maps⟩ := ih given.kept fun other member => outside other (by simp [member])
        exact ⟨after, fun virt off mapped => maps virt off (given.maps off mapped)⟩

theorem elfMapPages_reserved (kept : ReservedKept reserved m) {pages : List Nat}
    (outside : ∀ page ∈ pages, pdIndex page ≠ recursivePdIndex) :
    ReservedKept reserved (elfMapPages pages m).2 ∧ ∀ virt, pdIndex virt ≠ recursivePdIndex →
      m.Maps virt m.Harmless → (elfMapPages pages m).2.Maps virt (elfMapPages pages m).2.Harmless :=
  giveLoop_reserved (fun _ => rfl) (fun _ _ _ => rfl) kept outside

theorem heapMapPages_reserved (kept : ReservedKept reserved m) {pages : List Nat}
    (outside : ∀ page ∈ pages, pdIndex page ≠ recursivePdIndex) :
    ReservedKept reserved (heapMapPages pages m).2 :=
  (giveLoop_reserved (fun _ => rfl) (fun _ _ _ => rfl) kept outside).1

/-- The pages and bytes of a segment are in the user half, and the bytes in no page table. -/
def SegmentPlain (m : Mm) (phdr : ElfPhdr) : Prop :=
  (∀ page ∈ phdr.pages, page < kernelVma) ∧ ∀ i < max phdr.filesz phdr.memsz,
    u32 (phdr.vaddr + i) < kernelVma ∧ m.Maps (u32 (phdr.vaddr + i)) m.Harmless

theorem elfLoadSegments_reserved (kept : ReservedKept reserved m) {data : Buffer}
    {indices : List Nat} (plain : ∀ index ∈ indices, (elfPhdr data index).type = ptLoad →
      SegmentPlain m (elfPhdr data index)) :
    ReservedKept reserved (elfLoadSegments data indices m).2 := by
  induction indices generalizing m with
  | nil => exact kept
  | cons index rest ih =>
      simp only [elfLoadSegments]
      split
      · rename_i load
        obtain ⟨pages, bytes⟩ := plain index (by simp) load
        obtain ⟨mapped, maps⟩ := elfMapPages_reserved kept fun page member =>
          user_ne_recursive (pages page member)
        split
        · have same := mapped.guarded.elfCopySegment data fun i below present =>
            (maps _ (user_ne_recursive (bytes i below).1) (bytes i below).2 present).1
          have copied := same.keeps mapped
          refine ih copied.kept fun other member isLoad => ?_
          obtain ⟨otherPages, otherBytes⟩ := plain other (by simp [member]) isLoad
          refine ⟨otherPages, fun i below => ⟨(otherBytes i below).1, ?_⟩⟩
          obtain ⟨user, own⟩ := otherBytes i below
          exact (maps _ (user_ne_recursive user) own).of_entry copied.harmless (.inl (same.entry _))
        · exact mapped
      · exact ih kept fun other member => plain other (by simp [member])

theorem elfLoadFromMemory_reserved (kept : ReservedKept reserved m) {data : Buffer} {size proc : Nat}
    (plain : ∀ index < elfPhnum data, (elfPhdr data index).type = ptLoad →
      SegmentPlain m (elfPhdr data index)) :
    ReservedKept reserved (elfLoadFromMemory m data size proc).2 := by
  unfold elfLoadFromMemory
  split
  · exact kept
  split
  · exact kept
  have loaded := elfLoadSegments_reserved kept fun index member =>
    plain index (List.mem_range.mp member)
  dsimp only
  split
  · refine (elfMapPages_reserved loaded fun page member => user_ne_recursive ?_).1
    have inside := (mem_pageLoop.mp member).2.1
    simp only [userStackTop] at inside
    omega
  · exact loaded

/-! Shared memory. -/

theorem shmFrame_row {base i : Nat} (bound : base + i < 1048576) :
    shmFrame (base * 4096) i / 4096 = base + i := by
  rw [shmFrame, u32_eq_of_lt (by omega)]
  omega

/-- The frames of a region are taken in ascending order, so that as many frames as were taken
follow the first one. -/
theorem ReservedKept.shmTakeFrames (kept : ReservedKept reserved m) (positive : 0 < reserved)
    {base index count : Nat} (beyond : reserved ≤ base)
    (row : ∀ frame < base + index, m.pmm.bitmapTest frame = true)
    (fits : base + index ≤ m.pmm.totalFrames)
    (fresh : (ZurichOS.shmTakeFrames (base * 4096) index count m.pmm).1 = true ∨
      ∀ i < index + count, m.FreshTable (shmFrame (base * 4096) i / 4096)) :
    ReservedKept reserved
        { m with pmm := (ZurichOS.shmTakeFrames (base * 4096) index count m.pmm).2 } ∧
      (ZurichOS.shmTakeFrames (base * 4096) index count m.pmm).2.totalFrames = m.pmm.totalFrames ∧
      ((ZurichOS.shmTakeFrames (base * 4096) index count m.pmm).1 = true →
        base + index + count ≤ m.pmm.totalFrames) := by
  induction count generalizing m index with
  | zero => exact ⟨kept, rfl, fun _ => fits⟩
  | succ count ih =>
      have memory := kept.guarded.memory
      have taken := kept.allocFrame
      simp only [ZurichOS.shmTakeFrames] at fresh ⊢
      by_cases failed : (pmmAllocFrame m.pmm).1 = 0
      · simp only [failed, if_true, Bool.false_eq_true, false_or] at fresh ⊢
        rw [Pmm.allocFrame_dry failed memory kept.accounted]
        refine ⟨kept.freeFrames positive (fun addr member => ?_) (fun addr member => ?_), ?_,
          fun all => all.elim⟩
        · obtain ⟨i, below, rfl⟩ := List.mem_map.mp member
          rw [shmFrame_row (by have := List.mem_range.mp below; omega)]
          omega
        · obtain ⟨i, below, rfl⟩ := List.mem_map.mp member
          exact fresh i (by have := List.mem_range.mp below; omega)
        · exact List.foldlRecOn (motive := fun pmm => pmm.totalFrames = m.pmm.totalFrames) _ _ rfl
            fun pmm same addr _ => (totalFrames_freeFrame pmm addr).trans same
      · simp only [failed, if_false] at fresh ⊢
        have takes := kept.accounted.takes failed
        have next : base + index ≤ (pmmAllocFrame m.pmm).1 / 4096 := by
          apply Nat.le_of_not_lt
          intro below
          cases takes.isFree.symm.trans (row _ below)
        have rest := @ih { m with pmm := (pmmAllocFrame m.pmm).2 }
          taken.kept (index + 1) (fun frame below => ?_) ?_ ?_
        · refine ⟨rest.1, rest.2.1.trans takes.total, fun all => ?_⟩
          have room : base + (index + 1) + count ≤ (pmmAllocFrame m.pmm).2.totalFrames := rest.2.2 all
          rw [takes.total] at room
          omega
        · by_cases own : frame = (pmmAllocFrame m.pmm).1 / 4096
          · refine (Bool.not_eq_false _).mp fun free => ?_
            exact ((takes.free frame).mp free).2 own
          · refine allocFrame_keeps ?_
            by_cases earlier : frame < base + index
            · exact row frame earlier
            · exact kept.accounted.allocFrame_lowest failed (by omega)
        · show base + (index + 1) ≤ (pmmAllocFrame m.pmm).2.totalFrames
          have bound := takes.bound
          rw [takes.total]
          omega
        · exact fresh.imp_right fun others i below => others i (by omega)

end Edits

end Mm

end ZurichOS
