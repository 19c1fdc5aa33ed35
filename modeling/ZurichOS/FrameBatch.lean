import Mathlib.Data.Finset.Card
import ZurichOS.Frames

/-!
Several frames taken from the allocator one after the other, and runs of page table edits.
-/

namespace ZurichOS

open Words

/-- The frames that `count` calls of `pmm_alloc_frame` hand out, up to the first failure. -/
def allocFrames : Nat → Pmm → List Nat × Pmm
  | 0, pmm => ([], pmm)
  | count + 1, pmm =>
      let allocated := pmmAllocFrame pmm
      if allocated.1 = 0 then ([], allocated.2)
      else
        let rest := allocFrames count allocated.2
        (allocated.1 :: rest.1, rest.2)

theorem allocFrames_length_le (count : Nat) (pmm : Pmm) :
    (allocFrames count pmm).1.length ≤ count := by
  induction count generalizing pmm with
  | zero => exact Nat.le_refl _
  | succ count ih =>
      unfold allocFrames
      dsimp only
      split
      · exact Nat.zero_le _
      · exact Nat.succ_le_succ (ih _)

namespace Pmm

/-- Two allocators of one memory. -/
structure SameMemory (pmm after : Pmm) : Prop where
  size : after.bitmapSize = pmm.bitmapSize
  frames : after.totalFrames = pmm.totalFrames
  memory : after.totalMemory = pmm.totalMemory

theorem SameMemory.trans {pmm middle after : Pmm} (first : SameMemory pmm middle)
    (second : SameMemory middle after) : SameMemory pmm after :=
  ⟨second.size.trans first.size, second.frames.trans first.frames,
    second.memory.trans first.memory⟩

variable {pmm after : Pmm}

theorem Accounted.ext (accounted : pmm.Accounted) (afterAccounted : after.Accounted)
    (same : SameMemory pmm after) (bits : ∀ frame, after.bitmapTest frame = pmm.bitmapTest frame) :
    after = pmm := by
  have words : after.bitmap = pmm.bitmap := by
    funext word
    refine BitVec.eq_of_getLsbD_eq fun offset inside => ?_
    have bit := bits (word * 32 + offset)
    unfold bitmapTest at bit
    rw [PackedBitmap.test_eq_getLsbD (by omega), PackedBitmap.test_eq_getLsbD (by omega),
      show (word * 32 + offset) / 32 = word by omega,
      show (word * 32 + offset) % 32 = offset by omega] at bit
    exact bit
  have used : after.usedFrames = pmm.usedFrames := by
    rw [accounted.counted, afterAccounted.counted, words, same.frames]
  obtain ⟨size, frames, memory⟩ := same
  cases pmm
  cases after
  subst words used size frames memory
  rfl

/-- The addresses of frames of this memory, other than frame 0. -/
def Holds (pmm : Pmm) (addr : Nat) : Prop :=
  addr % 4096 = 0 ∧ addr / 4096 ≠ 0 ∧ addr / 4096 < pmm.totalFrames

/-- `after` is `pmm` with free frames handed out. -/
structure Batch (pmm after : Pmm) (frames : List Nat) : Prop where
  accounted : after.Accounted
  same : SameMemory pmm after
  once : frames.Nodup
  isFree : ∀ addr ∈ frames, pmm.Holds addr ∧ pmm.bitmapTest (addr / 4096) = false
  bits : ∀ frame, after.bitmapTest frame = (pmm.bitmapTest frame || decide (frame * 4096 ∈ frames))

theorem allocFrames_batch (accounted : pmm.Accounted) (count : Nat) :
    Batch pmm (allocFrames count pmm).2 (allocFrames count pmm).1 := by
  induction count generalizing pmm with
  | zero => exact ⟨accounted, ⟨rfl, rfl, rfl⟩, .nil, by simp [allocFrames], by simp [allocFrames]⟩
  | succ count ih =>
      unfold allocFrames
      dsimp only
      by_cases dry : (pmmAllocFrame pmm).1 = 0
      · rw [if_pos dry, allocFrame_dry dry accounted.small accounted]
        exact ⟨accounted, ⟨rfl, rfl, rfl⟩, .nil, by simp, by simp⟩
      · obtain ⟨frame, bound, address, off, result⟩ := accounted.allocFrame_success dry
        have next := accounted.allocFrame
        rw [if_neg dry, address]
        rw [result] at next ⊢
        have rest := ih next
        have nonzero : frame ≠ 0 := fun zero => dry (by rw [address, zero])
        refine ⟨rest.accounted, ⟨rest.same.size, rest.same.frames, rest.same.memory⟩, ?_, ?_,
          fun other => ?_⟩
        · refine List.nodup_cons.mpr ⟨fun inside => ?_, rest.once⟩
          have taken := (rest.isFree _ inside).2
          rw [bitmapTest_bitmapSet] at taken
          simp at taken
        · intro addr inside
          rcases List.mem_cons.mp inside with rfl | later
          · rw [show frame * 4096 / 4096 = frame by omega]
            exact ⟨⟨by omega, by omega, by omega⟩, off⟩
          · obtain ⟨held, isFree⟩ := rest.isFree addr later
            rw [bitmapTest_bitmapSet] at isFree
            exact ⟨held, (Bool.or_eq_false_iff.mp isFree).2⟩
        · rw [rest.bits, bitmapTest_bitmapSet]
          by_cases own : other = frame
          · simp [own]
          · simp [own]

/-- `after` is `pmm` with frames given back. -/
structure Freed (pmm after : Pmm) (frames : List Nat) : Prop where
  accounted : after.Accounted
  same : SameMemory pmm after
  bits : ∀ frame, after.bitmapTest frame = (pmm.bitmapTest frame && !decide (frame * 4096 ∈ frames))

theorem freeFrames_freed (accounted : pmm.Accounted) {frames : List Nat}
    (held : ∀ addr ∈ frames, pmm.Holds addr) :
    Freed pmm (frames.foldl pmmFreeFrame pmm) frames := by
  induction frames generalizing pmm with
  | nil => exact ⟨accounted, ⟨rfl, rfl, rfl⟩, by simp⟩
  | cons addr rest ih =>
      obtain ⟨aligned, nonzero, bound⟩ := held addr (by simp)
      have next := accounted.freeFrame nonzero
      have one : SameMemory pmm (pmmFreeFrame pmm addr) ∧ ∀ frame,
          (pmmFreeFrame pmm addr).bitmapTest frame =
            (pmm.bitmapTest frame && !decide (frame * 4096 = addr)) := by
        have own : ∀ frame, frame * 4096 = addr ↔ frame = addr / 4096 := fun frame => by omega
        rcases pmmFreeFrame_cases pmm addr with ⟨_, _, result⟩ | ⟨free, result⟩
        · rw [result]
          refine ⟨⟨rfl, rfl, rfl⟩, fun frame => ?_⟩
          rw [bitmapTest_bitmapClear, Bool.and_comm]
          simp only [own]
        · rw [result]
          refine ⟨⟨rfl, rfl, rfl⟩, fun frame => ?_⟩
          by_cases same : frame = addr / 4096
          · rw [same, free.resolve_left (by omega)]
            rfl
          · simp [own, same]
      have later := ih next fun other inside => by
        have good := held other (List.mem_cons_of_mem _ inside)
        rw [Holds, one.1.frames]
        exact good
      refine ⟨later.accounted, one.1.trans later.same, fun frame => ?_⟩
      rw [List.foldl_cons, later.bits, one.2]
      simp [Bool.and_assoc]

/-- Frames handed out and all given back leave the allocator as it was. -/
theorem Batch.undone {frames : List Nat} (batch : Batch pmm after frames)
    (accounted : pmm.Accounted) : frames.foldl pmmFreeFrame after = pmm := by
  have freed := freeFrames_freed batch.accounted fun addr inside => by
    rw [Holds, batch.same.frames]
    exact (batch.isFree addr inside).1
  refine accounted.ext freed.accounted (batch.same.trans freed.same) fun frame => ?_
  rw [freed.bits, batch.bits]
  by_cases inside : frame * 4096 ∈ frames
  · have isFree := (batch.isFree _ inside).2
    rw [show frame * 4096 / 4096 = frame by omega] at isFree
    simp [inside, isFree]
  · simp [inside]

end Pmm

/-- The directory slot that a call gives a table if it has none. -/
def VmmCall.slot : VmmCall → Option Nat
  | .mapPage virt _ _ => some (pdIndex virt)
  | .unmapPage _ => none

namespace Mm

/-- The directory slots that a run of calls has to make tables for. -/
def newTables (m : Mm) (calls : List VmmCall) : Finset Nat :=
  (calls.filterMap VmmCall.slot).toFinset.filter fun index => ¬ m.HasTable index

/-- What a run of calls leaves as it is. -/
structure RunKept (m after : Mm) : Prop where
  guarded : after.Guarded
  accounted : after.pmm.Accounted
  total : after.pmm.totalFrames = m.pmm.totalFrames
  harmless : ∀ frame, m.Harmless frame → after.Harmless frame

theorem RunKept.trans {m middle after : Mm} (first : RunKept m middle)
    (second : RunKept middle after) : RunKept m after :=
  ⟨second.guarded, second.accounted, second.total.trans first.total,
    fun frame harmless => second.harmless frame (first.harmless frame harmless)⟩

variable {m : Mm}

theorem SetsEntry.hasTable_iff {after : Mm} {virt value : Nat} (set : SetsEntry m after virt value)
    (index : Nat) : after.HasTable index ↔ m.HasTable index ∨ index = pdIndex virt := by
  by_cases own : index = pdIndex virt
  · simp [own, set.linked]
  · simp [own, HasTable, set.directory index own]

theorem newTables_cons (m : Mm) (virt phys flags : Nat) (rest : List VmmCall) :
    m.newTables (.mapPage virt phys flags :: rest) =
      if m.HasTable (pdIndex virt) then m.newTables rest
      else insert (pdIndex virt) (m.newTables rest) := by
  unfold newTables
  rw [List.filterMap_cons_some (show VmmCall.slot (.mapPage virt phys flags) = some (pdIndex virt)
    from rfl), List.toFinset_cons, Finset.filter_insert]
  by_cases table : m.HasTable (pdIndex virt) <;> simp [table]

theorem Guarded.mapPage_kept (guarded : m.Guarded) (accounted : m.pmm.Accounted)
    {virt phys flags : Nat} {rest : List VmmCall} (outside : pdIndex virt ≠ recursivePdIndex)
    (room : (m.newTables (.mapPage virt phys flags :: rest)).card ≤ m.pmm.freeFrames) :
    m.FreshFor (.mapPage virt phys flags) ∧ RunKept m (vmmMapPage m virt phys flags) ∧
      ((vmmMapPage m virt phys flags).newTables rest).card ≤
        (vmmMapPage m virt phys flags).pmm.freeFrames := by
  have pmm := vmmMapPage_pmm guarded.toTablesSound virt phys flags
  have needed : ¬ m.HasTable (pdIndex virt) → 0 < m.pmm.freeFrames := by
    intro absent
    rw [newTables_cons, if_neg absent] at room
    exact Nat.lt_of_lt_of_le (Finset.card_pos.mpr ⟨_, Finset.mem_insert_self _ _⟩) room
  have success : ¬ m.HasTable (pdIndex virt) → (pmmAllocFrame m.pmm).1 ≠ 0 := fun absent dry =>
    absurd (accounted.allocFrame_dry_iff.mp dry) (Nat.ne_of_gt (needed absent))
  have fresh : m.FreshFor (.mapPage virt phys flags) := fun absent =>
    ⟨success absent, (guarded.allocFrame_success (success absent)).2.2.1⟩
  have set := vmmMapPage_setsEntry guarded.toTablesSound outside phys flags fresh
  generalize vmmMapPage m virt phys flags = after at pmm set ⊢
  obtain ⟨afterGuarded, harmless⟩ := set.guarded guarded pmm success
  by_cases table : m.HasTable (pdIndex virt)
  · rw [if_pos table] at pmm
    rw [newTables_cons, if_pos table] at room
    refine ⟨fresh, ⟨afterGuarded, pmm ▸ accounted, congrArg _ pmm, harmless⟩, ?_⟩
    rw [pmm]
    refine (Finset.card_le_card fun index inside => ?_).trans room
    simp only [newTables, Finset.mem_filter, set.hasTable_iff] at inside ⊢
    exact ⟨inside.1, fun has => inside.2 (.inl has)⟩
  · have takes := accounted.takes (success table)
    rw [if_neg table] at pmm
    rw [newTables_cons, if_neg table] at room
    refine ⟨fresh, ⟨afterGuarded, pmm ▸ takes.accounted, pmm ▸ takes.total, harmless⟩, ?_⟩
    rw [pmm, takes.room]
    have fewer : after.newTables rest ⊂ insert (pdIndex virt) (m.newTables rest) := by
      refine Finset.ssubset_iff_subset_ne.mpr ⟨fun index inside => ?_, fun same => ?_⟩
      · simp only [newTables, Finset.mem_filter, set.hasTable_iff] at inside
        refine Finset.mem_insert_of_mem (Finset.mem_filter.mpr ⟨inside.1, fun has => ?_⟩)
        exact inside.2 (.inl has)
      · have own : pdIndex virt ∈ after.newTables rest := by
          rw [same]
          exact Finset.mem_insert_self _ _
        exact (Finset.mem_filter.mp own).2 set.linked
    have smaller := Finset.card_lt_card fewer
    omega

theorem Guarded.unmapPage_kept (guarded : m.Guarded) (accounted : m.pmm.Accounted) {virt : Nat}
    (outside : pdIndex virt ≠ recursivePdIndex) : RunKept m (vmmUnmapPage m virt) := by
  by_cases table : m.HasTable (pdIndex virt)
  · have set := vmmUnmapPage_setsEntry guarded.toTablesSound outside table
    have pmm := vmmUnmapPage_pmm m virt
    obtain ⟨afterGuarded, harmless⟩ := set.guarded guarded (by rw [if_pos table, pmm])
      fun absent => absurd table absent
    exact ⟨afterGuarded, pmm ▸ accounted, congrArg _ pmm, harmless⟩
  · rw [vmmUnmapPage_absent guarded.toTablesSound table]
    exact ⟨guarded, accounted, rfl, fun _ harmless => harmless⟩

/-- Mapping pages finds a table for each of them if the slots that need one are no more than
the free frames. -/
theorem Guarded.mapPages_kept (guarded : m.Guarded) (accounted : m.pmm.Accounted)
    {calls : List VmmCall} (maps : ∀ call ∈ calls, ∃ virt phys flags, call = .mapPage virt phys flags)
    (outside : ∀ call ∈ calls, pdIndex call.virt ≠ recursivePdIndex)
    (room : (m.newTables calls).card ≤ m.pmm.freeFrames) :
    m.FreshRun calls ∧ RunKept m (m.run calls) := by
  induction calls generalizing m with
  | nil => exact ⟨trivial, guarded, accounted, rfl, fun _ harmless => harmless⟩
  | cons call rest ih =>
      obtain ⟨virt, phys, flags, rfl⟩ := maps call (by simp)
      obtain ⟨fresh, kept, left⟩ := guarded.mapPage_kept accounted
        (outside (.mapPage virt phys flags) (by simp)) room
      obtain ⟨later, restKept⟩ := ih kept.guarded kept.accounted
        (fun other inside => maps other (List.mem_cons_of_mem _ inside))
        (fun other inside => outside other (List.mem_cons_of_mem _ inside)) left
      exact ⟨⟨fresh, later⟩, kept.trans restKept⟩

theorem Guarded.unmapPages_kept (guarded : m.Guarded) (accounted : m.pmm.Accounted)
    {pages : List Nat} (outside : ∀ page ∈ pages, pdIndex page ≠ recursivePdIndex) :
    RunKept m (pages.foldl vmmUnmapPage m) := by
  induction pages generalizing m with
  | nil => exact ⟨guarded, accounted, rfl, fun _ harmless => harmless⟩
  | cons page rest ih =>
      have kept := guarded.unmapPage_kept accounted (outside page (by simp))
      exact kept.trans (ih kept.guarded kept.accounted fun other inside =>
        outside other (List.mem_cons_of_mem _ inside))

theorem lastCall_only {calls : List VmmCall} {call : VmmCall} (inside : call ∈ calls)
    (only : ∀ other ∈ calls, pageOf other.virt = pageOf call.virt → other = call) :
    lastCall (pageOf call.virt) calls = some call := by
  unfold lastCall
  cases found : calls.reverse.find? fun other => pageOf other.virt == pageOf call.virt with
  | none =>
      have unmatched := List.find?_eq_none.mp found call (List.mem_reverse.mpr inside)
      simp at unmatched
  | some other =>
      have page := List.find?_some found
      rw [only other (List.mem_reverse.mp (List.mem_of_find?_eq_some found)) (by simpa using page)]

theorem lastCall_none {calls : List VmmCall} {page : Nat}
    (apart : ∀ call ∈ calls, pageOf call.virt ≠ page) : lastCall page calls = none := by
  unfold lastCall
  exact List.find?_eq_none.mpr fun call inside => by
    simpa using apart call (List.mem_reverse.mp inside)

end Mm

end ZurichOS
