import ZurichOS.FrameCore
import ZurichOS.FrameLedger
import ZurichOS.UserMemory

set_option linter.all false

/-!
The machine as a ledger of its frames.  Giving a fresh frame to an unmapped user page, and
unmapping a page with its frame freed, are the ledger's two steps; writes through user
pages leave the ledger as it is.
-/

namespace ZurichOS

open Words FrameLedger

/-! Frames taken from the allocator and given back. -/

namespace Pmm

def freeFrames (pmm : Pmm) : Nat := pmm.totalFrames - pmm.usedFrames

structure Takes (pmm after : Pmm) (frame : Nat) : Prop where
  bound : frame < pmm.totalFrames
  isFree : pmm.bitmapTest frame = false
  total : after.totalFrames = pmm.totalFrames
  free : ∀ other, after.bitmapTest other = false ↔ pmm.bitmapTest other = false ∧ other ≠ frame
  room : after.freeFrames = pmm.freeFrames - 1
  accounted : after.Accounted

variable {pmm : Pmm}

theorem Accounted.takes (accounted : pmm.Accounted) (success : (pmmAllocFrame pmm).1 ≠ 0) :
    pmm.Takes (pmmAllocFrame pmm).2 ((pmmAllocFrame pmm).1 / 4096) := by
  obtain ⟨frame, bound, address, isFree, after⟩ := accounted.allocFrame_success success
  have number : (pmmAllocFrame pmm).1 / 4096 = frame := by omega
  rw [number, after]
  refine ⟨bound, isFree, rfl, fun other => ?_, ?_, accounted.bitmapSet bound isFree⟩
  · rw [bitmapTest_bitmapSet]
    simp [and_comm]
  · have used := accounted.used_le
    have small := accounted.small
    have counted : (pmm.bitmapSet frame).usedFrames = pmm.usedFrames + 1 :=
      u32_eq_of_lt (by omega)
    show pmm.totalFrames - (pmm.bitmapSet frame).usedFrames = pmm.totalFrames - pmm.usedFrames - 1
    rw [counted, Nat.sub_sub]

theorem Accounted.allocFrame_dry_iff (accounted : pmm.Accounted) :
    (pmmAllocFrame pmm).1 = 0 ↔ pmm.freeFrames = 0 := by
  have full := PackedBitmap.count_eq_total pmm.bitmap pmm.totalFrames
  have used := PackedBitmap.count_le pmm.bitmap pmm.totalFrames
  rw [accounted.allocFrame_eq_zero_iff, freeFrames, accounted.counted, Nat.sub_eq_zero_iff_le]
  exact ⟨fun all => (full.mpr all).ge, fun none => full.mp (Nat.le_antisymm used none)⟩

theorem allocFrame_dry (failed : (pmmAllocFrame pmm).1 = 0) (small : pmm.totalFrames ≤ 1048576)
    (accounted : pmm.Accounted) : (pmmAllocFrame pmm).2 = pmm := by
  rcases pmmAllocFrame_cases pmm with same | ⟨frame, bound, off, same⟩
  · rw [same]
  · have zero := accounted.zeroUsed (by omega)
    have address : u32 (frame * 4096) = 0 := by rw [same] at failed; exact failed
    rw [u32_eq_of_lt (by omega)] at address
    rw [show frame = 0 by omega, zero] at off
    cases off

end Pmm

/-- What a machine has room for: how many frames are free, which directory slots have a
table, and which user pages are mapped. -/
structure FrameRoom where
  free : Nat
  linked : Nat → Bool
  mapped : Nat → Bool

namespace FrameRoom

/-- An unmapped user page that has its table or a second frame for one. -/
def fits (room : FrameRoom) (page : Nat) : Bool :=
  decide (page < kernelVma) && !room.mapped (page / 4096) &&
    (room.linked (pdIndex page) || decide (1 < room.free))

def place (room : FrameRoom) (page : Nat) : FrameRoom :=
  { free := room.free - if room.linked (pdIndex page) then 1 else 2
    linked := Function.update room.linked (pdIndex page) true
    mapped := Function.update room.mapped (page / 4096) true }

/-- Every page fits until the frames run out. -/
def takes : FrameRoom → List Nat → Bool
  | _, [] => true
  | room, page :: rest => room.free == 0 || room.fits page && (room.place page).takes rest

def placeAll : FrameRoom → List Nat → Option FrameRoom
  | room, [] => some room
  | room, page :: rest => if room.free = 0 then none else (room.place page).placeAll rest

end FrameRoom

namespace Mm

def IsTable (m : Mm) (frame : Nat) : Prop :=
  ∃ index < 1024, m.HasTable index ∧ frameOf (m.pde index) = frame

/-- The frame that a user page, given by its number, maps. -/
def userFrame (m : Mm) (page : Nat) : Option Nat :=
  if page < 0xC0000 ∧ m.entry (page * 4096) &&& pagePresent ≠ 0 then
    some (frameOf (m.entry (page * 4096)))
  else none

/-- Frames are held that the allocator does not manage, that were in use at the start, or
that are page tables. -/
def ledger (start : Pmm) (m : Mm) : Ledger Nat Nat where
  maps := m.userFrame
  Free frame := frame < m.pmm.totalFrames ∧ m.pmm.bitmapTest frame = false
  Held frame :=
    m.pmm.totalFrames ≤ frame ∨ start.bitmapTest frame = true ∨ m.IsTable frame

structure FramesKept (start : Pmm) (m : Mm) : Prop where
  guarded : m.Guarded
  accounted : m.pmm.Accounted
  zero : (m.ledger start).Held 0
  conserved : Conserved (m.ledger start)

variable {start : Pmm} {m : Mm}

theorem freshTable_iff (m : Mm) (frame : Nat) : m.FreshTable frame ↔ ¬ m.IsTable frame := by
  constructor
  · rintro fresh ⟨index, bound, table, same⟩
    exact fresh index bound table same
  · exact fun none index bound table same => none ⟨index, bound, table, same⟩

theorem entry_page (m : Mm) (virt : Nat) : m.entry (virt / 4096 * 4096) = m.entry virt := by
  have directory : pdIndex (virt / 4096 * 4096) = pdIndex virt := by
    rw [pdIndex_eq, pdIndex_eq]
    omega
  have table : ptIndex (virt / 4096 * 4096) = ptIndex virt := by
    rw [ptIndex_eq, ptIndex_eq]
    omega
  rw [entry, entry, directory, table]

theorem userFrame_virt {virt : Nat} (user : virt < 0xC0000000) :
    m.userFrame (virt / 4096) =
      if m.entry virt &&& pagePresent ≠ 0 then some (frameOf (m.entry virt)) else none := by
  have inside : virt / 4096 < 0xC0000 := by omega
  simp only [userFrame, entry_page, inside, true_and]

theorem userFrame_some {page frame : Nat} (mapped : m.userFrame page = some frame) :
    page < 0xC0000 ∧ m.entry (page * 4096) &&& pagePresent ≠ 0 ∧
      frameOf (m.entry (page * 4096)) = frame := by
  unfold userFrame at mapped
  split at mapped
  · rename_i present
    exact ⟨present.1, present.2, Option.some.inj mapped⟩
  · cases mapped

theorem hasTable_of_mapped {virt : Nat} (mapped : m.entry virt &&& pagePresent ≠ 0) :
    m.HasTable (pdIndex virt) := by
  apply Decidable.byContradiction
  intro absent
  rw [entry, if_neg absent] at mapped
  exact mapped rfl

/-! Changes the ledger does not see. -/

structure SameFrames (m after : Mm) : Prop where
  pmm : after.pmm = m.pmm
  cr3 : after.cr3 = m.cr3
  directory : ∀ index, after.pde index = m.pde index
  entry : ∀ virt, after.entry virt = m.entry virt

theorem SameFrames.refl (m : Mm) : SameFrames m m := ⟨rfl, rfl, fun _ => rfl, fun _ => rfl⟩

theorem SameFrames.trans {middle after : Mm} (first : SameFrames m middle)
    (second : SameFrames middle after) : SameFrames m after :=
  ⟨second.pmm.trans first.pmm, second.cr3.trans first.cr3,
    fun index => (second.directory index).trans (first.directory index),
    fun virt => (second.entry virt).trans (first.entry virt)⟩

theorem SameFrames.isTable {after : Mm} (same : SameFrames m after) (frame : Nat) :
    after.IsTable frame ↔ m.IsTable frame := by
  simp only [IsTable, HasTable, same.directory]

theorem SameFrames.userFrame {after : Mm} (same : SameFrames m after) :
    after.userFrame = m.userFrame := by
  funext page
  simp only [Mm.userFrame, same.entry]

theorem SameFrames.freshTable {after : Mm} (same : SameFrames m after) (frame : Nat) :
    after.FreshTable frame ↔ m.FreshTable frame := by
  rw [freshTable_iff, freshTable_iff, same.isTable]

theorem SameFrames.guarded {after : Mm} (same : SameFrames m after) (guarded : m.Guarded) :
    after.Guarded := by
  refine ⟨guarded.toTablesSound.congr same.cr3 same.directory, fun index bound table => ?_, ?_⟩
  · rw [HasTable, same.directory] at table
    rw [same.directory, same.pmm]
    exact guarded.reserved index bound table
  · rw [same.pmm]
    exact guarded.memory

theorem SameFrames.kept {after : Mm} (same : SameFrames m after) (kept : FramesKept start m) :
    FramesKept start after := by
  have ledgers : after.ledger start = m.ledger start := by
    simp only [ledger, same.pmm, same.isTable, same.userFrame]
  refine ⟨same.guarded kept.guarded, ?_, ?_, ?_⟩
  · rw [same.pmm]
    exact kept.accounted
  · rw [ledgers]
    exact kept.zero
  · rw [ledgers]
    exact kept.conserved

theorem OffFrame.same {after : Mm} {frame : Nat} (guarded : m.Guarded)
    (off : OffFrame m after frame) (fresh : m.FreshTable frame) : SameFrames m after := by
  refine ⟨off.pmm, off.cr3, fun index => ?_, (guarded.writeFrame off fresh).2.2⟩
  have apart : m.cr3 / 4096 ≠ frame := by
    rw [← guarded.recursive]
    exact fresh recursivePdIndex (by decide) guarded.present
  rw [pde, off.cr3, off.phys _ apart]
  rfl

/-- The frame of a user page is in use, was free at the start and is no page table. -/
theorem FramesKept.owned (kept : FramesKept start m) {page frame : Nat}
    (mapped : m.userFrame page = some frame) :
    (frame < m.pmm.totalFrames ∧ m.pmm.bitmapTest frame = true) ∧
      start.bitmapTest frame = false ∧ ¬ m.IsTable frame := by
  obtain ⟨notFree, notHeld⟩ := kept.conserved.exclusive page frame mapped
  have bound : frame < m.pmm.totalFrames := Nat.lt_of_not_le fun outside => notHeld (.inl outside)
  refine ⟨⟨bound, ?_⟩, ?_, fun table => notHeld (.inr (.inr table))⟩
  · exact (Bool.not_eq_false _).mp fun free => notFree ⟨bound, free⟩
  · exact Bool.eq_false_iff.mpr fun used => notHeld (.inr (.inl used))

theorem FramesKept.fresh (kept : FramesKept start m) {virt : Nat} (user : virt < 0xC0000000) :
    m.Maps virt m.FreshTable := by
  intro present
  have maps := userFrame_virt (m := m) user
  rw [if_pos present] at maps
  exact (freshTable_iff m _).mpr (kept.owned maps).2.2

/-! Writes through the pages of the user that map no page table. -/

theorem Guarded.setByte (guarded : m.Guarded) {virt : Nat} (own : m.Maps virt m.FreshTable)
    (value : Nat) : SameFrames m (m.setByte virt value) := by
  unfold Mm.setByte
  split
  · rename_i mapped
    have present := (vmmIsMapped_iff guarded.toTablesSound virt).mp mapped
    refine OffFrame.same guarded ⟨rfl, rfl, fun other apart => ?_⟩
      (mmuFrame_mapped present ▸ own present)
    funext i
    simp [apart]
  · exact .refl m

theorem Guarded.setBytes (guarded : m.Guarded) (base count : Nat) (value : Nat → Nat)
    (own : ∀ i < count, m.Maps (u32 (base + i)) m.FreshTable) :
    SameFrames m (m.setBytes base count value) := by
  unfold Mm.setBytes
  refine List.foldlRecOn _ _ (SameFrames.refl m) fun after same i member => ?_
  refine same.trans ((same.guarded guarded).setByte ?_ _)
  exact (own i (List.mem_range.mp member)).of_entry (fun frame => (same.freshTable frame).mpr)
    (.inl (same.entry _))

theorem Guarded.memset_same (guarded : m.Guarded) {page : Nat} (own : m.Maps page m.FreshTable)
    (spill : page % 4096 ≠ 0 → m.Maps (page + 0x1000) m.FreshTable) :
    SameFrames m (ZurichOS.memsetPage m page) := by
  obtain ⟨middle, cleared, same⟩ : ∃ middle,
      (if vmmIsMapped m page then m.clearFrom (m.mmuFrame page) (page &&& 0xFFF) else m) = middle ∧
        SameFrames m middle := by
    by_cases mapped : vmmIsMapped m page = true
    · have present := (vmmIsMapped_iff guarded.toTablesSound page).mp mapped
      exact ⟨_, if_pos mapped, OffFrame.same guarded (offFrame_clearFrom m _ _)
        (mmuFrame_mapped present ▸ own present)⟩
    · exact ⟨m, if_neg mapped, .refl m⟩
  simp only [ZurichOS.memsetPage, cleared]
  split
  · rename_i runsOn
    have unaligned : page % 4096 ≠ 0 := by
      rw [← and_offsetMask]
      exact runsOn.1
    have next := same.guarded guarded
    have present := (vmmIsMapped_iff next.toTablesSound _).mp runsOn.2
    have fresh := (spill unaligned).of_entry (fun frame => (same.freshTable frame).mpr)
      (.inl (same.entry _))
    exact same.trans (OffFrame.same next (offFrame_clearBelow middle _ _)
      (mmuFrame_mapped present ▸ fresh present))
  · exact same

theorem FramesKept.memsetPage (kept : FramesKept start m) {page : Nat}
    (user : page < 0xBFFFF000 ∨ page % 4096 = 0 ∧ page < 0xC0000000) :
    SameFrames m (memsetPage m page) :=
  kept.guarded.memset_same (kept.fresh (by omega)) fun unaligned => kept.fresh (by omega)

/-! A frame given to a user page, and taken back. -/

def room (m : Mm) : FrameRoom :=
  { free := m.pmm.freeFrames
    linked := fun index => m.pde index &&& pagePresent != 0
    mapped := fun page => (m.userFrame page).isSome }

theorem room_linked (m : Mm) (index : Nat) : m.room.linked index = true ↔ m.HasTable index :=
  bne_iff_ne

theorem SameFrames.room {after : Mm} (same : SameFrames m after) : after.room = m.room := by
  simp only [Mm.room, same.pmm, same.directory, same.userFrame]

theorem SetsEntry.userFrame {after : Mm} {virt value : Nat} (set : SetsEntry m after virt value)
    (user : virt < 0xC0000000) :
    after.userFrame = Function.update m.userFrame (virt / 4096)
      (if value &&& pagePresent ≠ 0 then some (frameOf value) else none) := by
  funext page
  have number : page < 0xC0000 → pageOf (page * 4096) = page := by
    intro low
    rw [pageOf, Nat.shiftRight_eq_div_pow, Nat.and_two_pow_sub_one_eq_mod _ 20]
    omega
  have own : pageOf virt = virt / 4096 := by
    rw [pageOf, Nat.shiftRight_eq_div_pow, Nat.and_two_pow_sub_one_eq_mod _ 20]
    omega
  by_cases low : page < 0xC0000
  · have entry : after.entry (page * 4096) = _ := set.entry_eq (user_ne_recursive (by omega))
    rw [number low, own] at entry
    by_cases same : page = virt / 4096
    · rw [if_pos same] at entry
      rw [same, Function.update_self, Mm.userFrame, ← same, entry]
      simp only [low, true_and]
    · rw [if_neg same] at entry
      rw [Function.update_of_ne same, Mm.userFrame, Mm.userFrame, entry]
  · rw [Function.update_of_ne (by omega), Mm.userFrame, Mm.userFrame, if_neg (by omega),
      if_neg (by omega)]

theorem SetsEntry.isTable {after : Mm} {virt value : Nat} (set : SetsEntry m after virt value)
    (frame : Nat) : after.IsTable frame ↔ m.IsTable frame ∨
      ¬ m.HasTable (pdIndex virt) ∧ frame = (pmmAllocFrame m.pmm).1 / 4096 := by
  constructor
  · rintro ⟨index, bound, table, same⟩
    rcases set.hasTable table with ⟨before, kept⟩ | ⟨rfl, absent, created⟩
    · exact .inl ⟨index, bound, before, kept.symm.trans same⟩
    · exact .inr ⟨absent, same.symm.trans created⟩
  · rintro (⟨index, bound, table, same⟩ | ⟨absent, rfl⟩)
    · by_cases own : index = pdIndex virt
      · subst own
        exact ⟨_, bound, set.linked, (set.kept table).trans same⟩
      · refine ⟨index, bound, ?_, ?_⟩
        · rwa [HasTable, set.directory index own]
        · rwa [set.directory index own]
    · exact ⟨_, pdIndex_lt virt, set.linked, set.created absent⟩

theorem SetsEntry.linked_update {after : Mm} {virt value : Nat}
    (set : SetsEntry m after virt value) :
    after.room.linked = Function.update m.room.linked (pdIndex virt) true := by
  funext index
  by_cases own : index = pdIndex virt
  · rw [own, Function.update_self, room_linked]
    exact set.linked
  · rw [Function.update_of_ne own]
    simp only [Mm.room, set.directory index own]

theorem ledger_takes {pmm after : Pmm} {frame : Nat} (takes : pmm.Takes after frame) (other : Nat) :
    other < after.totalFrames ∧ after.bitmapTest other = false ↔
      (other < pmm.totalFrames ∧ pmm.bitmapTest other = false) ∧ other ≠ frame := by
  rw [takes.total, takes.free, and_assoc]

/-- `after` is `m` with a free frame given to a user page, and a second one made its table
if it had none. -/
structure Gives (m after : Mm) (page frame : Nat) : Prop where
  guarded : after.Guarded
  maps : after.userFrame = Function.update m.userFrame (page / 4096) (some frame)
  linked : after.room.linked = Function.update m.room.linked (pdIndex page) true
  taken :
    m.HasTable (pdIndex page) ∧ m.pmm.Takes after.pmm frame ∧
        (∀ other, after.IsTable other ↔ m.IsTable other) ∨
      ¬ m.HasTable (pdIndex page) ∧ ∃ middle table, m.pmm.Takes middle frame ∧
        middle.Takes after.pmm table ∧ ∀ other, after.IsTable other ↔ m.IsTable other ∨ other = table

theorem FramesKept.gives (kept : FramesKept start m) {page : Nat}
    (success : (pmmAllocFrame m.pmm).1 ≠ 0) (user : page < 0xC0000000)
    (enough : m.HasTable (pdIndex page) ∨ 1 < m.pmm.freeFrames) (flags : Nat) :
    Gives m (vmmMapPage { m with pmm := (pmmAllocFrame m.pmm).2 } page (pmmAllocFrame m.pmm).1 flags)
      page ((pmmAllocFrame m.pmm).1 / 4096) := by
  have takes := kept.accounted.takes success
  let taken : Mm := { m with pmm := (pmmAllocFrame m.pmm).2 }
  have guarded : taken.Guarded := kept.guarded.allocFrame.guarded
  have second : ¬ taken.HasTable (pdIndex page) → (pmmAllocFrame taken.pmm).1 ≠ 0 := by
    intro absent failed
    have dry := takes.accounted.allocFrame_dry_iff.mp failed
    have more : 1 < m.pmm.freeFrames := enough.resolve_left absent
    rw [takes.room] at dry
    omega
  have set := vmmMapPage_setsEntry guarded.toTablesSound (user_ne_recursive user)
    (pmmAllocFrame m.pmm).1 flags fun absent =>
      ⟨second absent, (guarded.allocFrame_success (second absent)).2.2.1⟩
  have pmm := vmmMapPage_pmm guarded.toTablesSound page (pmmAllocFrame m.pmm).1 flags
  refine ⟨(guarded.mapUser user _ flags).1.guarded, ?_, set.linked_update, ?_⟩
  · rw [set.userFrame user, if_pos (tableEntry_present _ _), frameOf, tableEntry_page,
      ← frameOf_allocFrame, frameOf]
    rfl
  · rw [pmm]
    by_cases table : taken.HasTable (pdIndex page)
    · rw [if_pos table]
      exact .inl ⟨table, takes, fun other =>
        (set.isTable other).trans (or_iff_left fun new => new.1 table)⟩
    · rw [if_neg table]
      exact .inr ⟨table, _, _, takes, takes.accounted.takes (second table), fun other =>
        (set.isTable other).trans (or_congr_right (and_iff_right table))⟩

theorem Gives.kept {after : Mm} {page frame : Nat} (gives : Gives m after page frame)
    (kept : FramesKept start m) (empty : m.userFrame (page / 4096) = none) :
    FramesKept start after := by
  rcases gives.taken with ⟨_, takes, tables⟩ | ⟨_, middle, table, takes, again, tables⟩
  · have step : Places (m.ledger start) (after.ledger start) (page / 4096) frame := by
      refine ⟨empty, ⟨takes.bound, takes.isFree⟩, gives.maps, ledger_takes takes, fun other => ?_⟩
      simp only [ledger, takes.total, tables]
    exact ⟨gives.guarded, takes.accounted, (step.held 0).mpr kept.zero,
      kept.conserved.place step⟩
  · -- The table's frame is held first, then the page's frame is placed.
    have apart : frame ≠ table := by
      rintro rfl
      exact ((takes.free frame).mp again.isFree).2 rfl
    let middle : Ledger Nat Nat :=
      { maps := m.userFrame
        Free := fun other => (m.ledger start).Free other ∧ other ≠ table
        Held := fun other => (m.ledger start).Held other ∨ other = table }
    have holds : Holds (m.ledger start) middle table :=
      ⟨((ledger_takes takes table).mp ⟨again.bound, again.isFree⟩).1, rfl, fun _ => Iff.rfl,
        fun _ => Iff.rfl⟩
    have step : Places middle (after.ledger start) (page / 4096) frame := by
      refine ⟨empty, ⟨⟨takes.bound, takes.isFree⟩, apart⟩, gives.maps, fun other => ?_,
        fun other => ?_⟩
      · exact (ledger_takes again other).trans
          ((and_congr_left' (ledger_takes takes other)).trans and_right_comm)
      · simp only [middle, ledger, again.total, takes.total, tables, or_assoc]
    exact ⟨gives.guarded, again.accounted, (step.held 0).mpr (.inl kept.zero),
      (kept.conserved.hold holds).place step⟩

theorem Gives.room {after : Mm} {page frame : Nat} (gives : Gives m after page frame) :
    after.room = m.room.place page := by
  have free : after.room.free =
      m.room.free - if m.room.linked (pdIndex page) = true then 1 else 2 := by
    rcases gives.taken with ⟨table, takes, _⟩ | ⟨absent, middle, _, takes, again, _⟩
    · rw [if_pos ((room_linked m _).mpr table)]
      exact takes.room
    · rw [if_neg fun linked => absent ((room_linked m _).mp linked)]
      exact again.room.trans (by rw [takes.room, Nat.sub_sub]; rfl)
  have mapped : after.room.mapped = Function.update m.room.mapped (page / 4096) true := by
    funext other
    show (after.userFrame other).isSome = _
    rw [gives.maps]
    by_cases own : other = page / 4096
    · rw [own, Function.update_self, Function.update_self]
      rfl
    · rw [Function.update_of_ne own, Function.update_of_ne own]
      rfl
  rw [FrameRoom.place, ← free, ← gives.linked, ← mapped]

theorem FramesKept.place (kept : FramesKept start m) {page : Nat}
    (success : (pmmAllocFrame m.pmm).1 ≠ 0) (fits : m.room.fits page = true) (flags : Nat) :
    let after := vmmMapPage { m with pmm := (pmmAllocFrame m.pmm).2 } page
      (pmmAllocFrame m.pmm).1 flags
    FramesKept start after ∧ after.room = m.room.place page := by
  simp only [FrameRoom.fits, Bool.and_eq_true, decide_eq_true_eq, Bool.not_eq_true',
    Bool.or_eq_true, room_linked] at fits
  obtain ⟨⟨user, unmapped⟩, enough⟩ := fits
  have gives := kept.gives success user enough flags
  exact ⟨gives.kept kept (Option.not_isSome_iff_eq_none.mp (Bool.not_eq_true _ ▸ unmapped)),
    gives.room⟩

theorem FramesKept.release (kept : FramesKept start m) {page : Nat} (user : page < 0xC0000000)
    (mapped : m.entry page &&& pagePresent ≠ 0) :
    let after : Mm :=
      { vmmUnmapPage m page with pmm := pmmFreeFrame m.pmm (vmmGetPhysical m page) }
    FramesKept start after ∧
      after.userFrame = Function.update m.userFrame (page / 4096) none := by
  intro after
  have sound := kept.guarded.toTablesSound
  have maps := userFrame_virt (m := m) user
  rw [if_pos mapped] at maps
  obtain ⟨⟨bound, used⟩, _, noTable⟩ := kept.owned maps
  have own : vmmGetPhysical m page / 4096 = frameOf (m.entry page) := by
    rw [physical_frame sound, if_neg mapped]
  generalize frameEq : frameOf (m.entry page) = frame at maps bound used noTable own
  have nonzero : frame ≠ 0 := by
    rintro rfl
    exact (kept.conserved.exclusive _ _ maps).2 kept.zero
  have linked := hasTable_of_mapped mapped
  have set := vmmUnmapPage_setsEntry sound (user_ne_recursive user) linked
  have confined : Confined m after := by
    refine (kept.guarded.unmapFree ⟨user, fun _ => ?_⟩).1
    rwa [frameEq, freshTable_iff]
  have freed : after.pmm = m.pmm.bitmapClear frame := by
    rcases pmmFreeFrame_cases m.pmm (vmmGetPhysical m page) with ⟨_, _, same⟩ | ⟨outside, _⟩
    · rw [← own]
      exact same
    · rw [own, used] at outside
      rcases outside with outside | off
      · exact absurd bound (Nat.not_lt.mpr outside)
      · cases off
  have unmaps : after.userFrame = Function.update m.userFrame (page / 4096) none :=
    (set.userFrame user).trans (by rw [if_neg (by decide)])
  have step : Releases (m.ledger start) (after.ledger start) (page / 4096) frame := by
    refine ⟨maps, unmaps, fun other => ?_, fun other => ?_⟩
    · show other < after.pmm.totalFrames ∧ after.pmm.bitmapTest other = false ↔ _
      rw [freed, Pmm.bitmapTest_bitmapClear]
      by_cases same : other = frame
      · simp [same, bound, Pmm.bitmapClear]
      · simp [same, ledger, Pmm.bitmapClear]
    · show after.pmm.totalFrames ≤ other ∨ _ ∨ after.IsTable other ↔ _
      have tables : after.IsTable other ↔ m.IsTable other :=
        (set.isTable other).trans (or_iff_left fun new => new.1 linked)
      rw [freed, tables]
      rfl
  refine ⟨⟨confined.guarded, ?_, (step.held 0).mpr kept.zero, kept.conserved.release step⟩, unmaps⟩
  rw [freed]
  exact kept.accounted.bitmapClear bound used nonzero

end Mm

end ZurichOS
