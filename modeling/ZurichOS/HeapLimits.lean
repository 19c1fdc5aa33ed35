import ZurichOS.Heap
import ZurichOS.Vmm

set_option linter.all false

/-!
The limits of the kernel heap: a pointer from `kmalloc` stays inside one block and inside the
heap, and a request that fails leaves the machine as it was, under exact conditions on the
request, the heap and the frame allocator.
-/

namespace ZurichOS

open Words DoublyLinked

variable {h : Heap} {blocks left right : List (Nat × HeapBlock)} {a request : Nat}
  {x : HeapBlock}

/-- The blocks that the walk from `free_list` passes. -/
inductive OnList (h : Heap) : Nat → Prop
  | head : h.freeList ≠ 0 → OnList h h.freeList
  | next {block : Nat} : OnList h block → (h.block block).next ≠ 0 →
      OnList h (h.block block).next

theorem Threaded.onList (threaded : Threaded h (left ++ (a, x) :: right))
    (nonNull : ∀ b ∈ left, b.1 ≠ 0) (own : a ≠ 0) : OnList h a := by
  induction left using List.reverseRecOn generalizing a x right with
  | nil =>
      have head : h.freeList = a := threaded.head
      rw [← head] at own ⊢
      exact .head own
  | append_singleton front node ih =>
      obtain ⟨p, z⟩ := node
      have whole : Threaded h (front ++ (p, z) :: (a, x) :: right) := by
        simpa using threaded
      have stored : h.block p = z := whole.stored (p, z) (by simp)
      have next : z.next = a := ((linked_append _ _ _ _).mp whole.linked).2.2.1
      have before : OnList h p :=
        ih whole (fun b member => nonNull b (by simp [member])) (nonNull (p, z) (by simp))
      rw [← next, ← stored] at own ⊢
      exact .next before own

theorem HeapList.threaded (list : HeapList h blocks) : Threaded h blocks :=
  ⟨list.head, list.stored, list.linked⟩

theorem HeapList.onList (list : HeapList h blocks) {b : Nat × HeapBlock} (member : b ∈ blocks) :
    OnList h b.1 := by
  obtain ⟨left, right, rfl⟩ := List.append_of_mem member
  exact list.threaded.onList (fun b inside => list.block_nonNull b (by simp [inside]))
    (list.block_nonNull b (by simp))

theorem HeapList.append_onList (list : HeapList h blocks) (mm : Mm) {newEnd : Nat}
    (size userSize : Nat) (grows : h.heapEnd ≤ newEnd) :
    let after := (appendBlock { h with mm, heapEnd := newEnd } h.heapEnd size userSize).2
    OnList after h.heapEnd ∧ (after.block h.heapEnd).size = size := by
  intro after
  have positive : h.heapEnd ≠ 0 := by
    have low := list.nonNull
    have span := list.packed.le
    omega
  rcases List.eq_nil_or_concat blocks with rfl | ⟨front, ⟨p, z⟩, rfl⟩
  · have threaded := list.append_first_threaded mm newEnd size userSize
    rw [← List.nil_append [_]] at threaded
    refine ⟨threaded.onList (by simp) positive, ?_⟩
    rw [threaded.stored (h.heapEnd, newBlock size userSize 0) (by simp)]
    rfl
  · rw [List.concat_eq_append] at list
    have threaded := list.append_last_threaded mm size userSize grows
    have nonNull := list.block_nonNull
    have split : front ++ [(p, { z with next := h.heapEnd }), (h.heapEnd, newBlock size userSize p)]
        = (front ++ [(p, { z with next := h.heapEnd })]) ++
          (h.heapEnd, newBlock size userSize p) :: [] := by simp
    rw [split] at threaded
    refine ⟨threaded.onList ?_ positive, ?_⟩
    · intro b member
      rcases List.mem_append.mp member with inFront | own
      · exact nonNull b (by simp [inFront])
      · rw [List.mem_singleton.mp own]
        exact nonNull (p, z) (by simp)
    · rw [threaded.stored (h.heapEnd, newBlock size userSize p) (by simp)]
      rfl

/-- The `bytes` bytes from `ptr` on lie in the payload of one block of the list. -/
def InsideBlock (h : Heap) (ptr bytes : Nat) : Prop :=
  ∃ block, OnList h block ∧ block + headerSize ≤ ptr ∧
    ptr + bytes ≤ block + headerSize + (h.block block).size

/-- What a call that returns `result` may hand out, and where it leaves the heap's end. -/
def AllocationBounded (h : Heap) (request : Nat) (result : Nat × Heap) : Prop :=
  (result.1 = 0 ∨
    InsideBlock result.2 result.1 (request + guardSize) ∧ h.heapStart ≤ result.1 ∧
      result.1 + request + guardSize ≤ h.heapMax) ∧
  h.heapEnd ≤ result.2.heapEnd ∧ result.2.heapEnd ≤ h.heapMax

/-- `pmm_alloc_frame` has no frame for one of the pages of a growing heap. -/
def runsDry : List Nat → Mm → Bool
  | [], _ => false
  | page :: rest, mm =>
      let allocated := pmmAllocFrame mm.pmm
      allocated.1 == 0 ||
        runsDry rest (vmmMapPage { mm with pmm := allocated.2 } page allocated.1 pageKernel)

theorem heapMapPages_runsDry (pages : List Nat) (mm : Mm) :
    (heapMapPages pages mm).1 = !runsDry pages mm := by
  induction pages generalizing mm with
  | nil => rfl
  | cons page rest ih =>
      rw [heapMapPages, runsDry]
      by_cases failed : (pmmAllocFrame mm.pmm).1 = 0
      · rw [if_pos failed, failed]
        rfl
      · rw [if_neg failed, ih, beq_false_of_ne failed, Bool.false_or]

/-- The heap does not have to grow and the request does not wrap, or it cannot grow, or it
grows to an end behind the new block. -/
def KmallocFits (h : Heap) (request : Nat) : Prop :=
  request = 0 ∨
  firstFit h (allocationSize request) ≠ 0 ∧ request ≤ 0xFFFFFFEC ∨
  firstFit h (allocationSize request) = 0 ∧
    (h.heapMax < h.newEnd request ∨ runsDry (h.growthPages request) h.mm = true ∨
      h.heapEnd ≤ h.newEnd request ∧ h.heapEnd + headerSize + request + guardSize ≤ h.heapMax)

instance (h : Heap) (request : Nat) : Decidable (KmallocFits h request) :=
  inferInstanceAs (Decidable (_ ∨ _ ∨ _))

theorem takeBlock_inside (inv : HeapInv h (left ++ (a, x) :: right)) (free : x.free = true)
    {size userSize : Nat} (room : size ≤ x.size) (fits : userSize + 4 ≤ size) :
    InsideBlock (takeBlock h a size userSize).2 (a + 24) (userSize + 4) := by
  obtain ⟨_, after, kept, live⟩ := inv.takeBlock free room fits
  obtain ⟨y, member, taken, same⟩ := mem_liveBlocks.mp (live.mem_iff.mpr List.mem_cons_self)
  have inside := (kept.each (a, y) member).2 taken
  have stored := kept.stored (a, y) member
  refine ⟨a, kept.onList member, Nat.le_refl _, ?_⟩
  dsimp only at inside stored
  rw [stored]
  simp only [headerSize, guardSize] at inside ⊢
  omega

theorem takeBlock_bounds (h : Heap) (block size userSize : Nat) :
    (takeBlock h block size userSize).2.heapStart = h.heapStart ∧
      (takeBlock h block size userSize).2.heapEnd = h.heapEnd ∧
      (takeBlock h block size userSize).2.heapMax = h.heapMax := by
  simp only [takeBlock, recordAllocation, setGuard, Heap.edit]
  split <;> simp only [splitBlock, Heap.edit, Heap.relink, and_self]

theorem newEnd_le (h : Heap) (request : Nat) : h.newEnd request ≤ 0xFFFFF000 := by
  rw [Heap.newEnd, alignUp_4096]
  omega

theorem taken_bounded_iff (inv : HeapInv h (left ++ (a, x) :: right))
    (span : h.heapEnd ≤ h.heapMax) (top : h.heapMax < 4294967296) (free : x.free = true)
    (room : allocationSize request ≤ x.size) :
    AllocationBounded h request (takeBlock h a (allocationSize request) request) ↔
      request ≤ 0xFFFFFFEC := by
  have low := inv.nonNull
  have range := inv.range
  obtain ⟨_, stop, _⟩ := takeBlock_bounds h a (allocationSize request) request
  have ptr : (takeBlock h a (allocationSize request) request).1 = a + 24 :=
    u32_eq_of_lt (show a + 24 < 4294967296 by omega)
  rw [AllocationBounded, ptr, stop]
  constructor
  · rintro ⟨null | ⟨_, _, high⟩, _⟩
    · omega
    · rw [show guardSize = 4 from rfl] at high
      omega
  · intro small
    have fits : request + 4 ≤ allocationSize request := by
      rw [allocationSize_eq small]
      omega
    refine ⟨.inr ⟨takeBlock_inside inv free room fits, by omega, ?_⟩, Nat.le_refl _, span⟩
    rw [show guardSize = 4 from rfl]
    omega

theorem grown_bounded_iff (inv : HeapInv h blocks) (mm : Mm) (top : h.heapMax < 4294967296)
    (within : h.newEnd request ≤ h.heapMax) :
    AllocationBounded h request
      (appendBlock { h with mm, heapEnd := h.newEnd request } h.heapEnd
        (allocationSize request) request) ↔
    h.heapEnd ≤ h.newEnd request ∧ h.heapEnd + headerSize + request + guardSize ≤ h.heapMax := by
  generalize grown : appendBlock { h with mm, heapEnd := h.newEnd request } h.heapEnd
    (allocationSize request) request = result
  have low := inv.nonNull
  have order := inv.packed.le
  have last := newEnd_le h request
  obtain ⟨_, stop, _⟩ := appendBlock_bounds { h with mm, heapEnd := h.newEnd request } h.heapEnd
    (allocationSize request) request
  rw [grown] at stop
  rw [AllocationBounded, show result.2.heapEnd = h.newEnd request from stop]
  -- An end that wrapped below the old one is no growth, whatever the pointer is.
  by_cases grows : h.heapEnd ≤ h.newEnd request
  · have ptr : result.1 = h.heapEnd + 24 := by
      rw [← grown]
      exact u32_eq_of_lt (show h.heapEnd + 24 < 4294967296 by omega)
    rw [ptr, show headerSize = 24 from rfl, show guardSize = 4 from rfl]
    constructor
    · rintro ⟨null | ⟨_, _, high⟩, _⟩
      · omega
      · exact ⟨grows, high⟩
    · rintro ⟨_, high⟩
      have fits : request + 4 ≤ allocationSize request := by
        rw [allocationSize_eq (by omega)]
        omega
      obtain ⟨listed, size⟩ :=
        inv.toHeapList.append_onList mm (allocationSize request) request grows
      rw [grown] at listed size
      refine ⟨.inr ⟨⟨h.heapEnd, listed, Nat.le_refl _, ?_⟩, by omega, high⟩, grows, within⟩
      show h.heapEnd + 24 + (request + 4) ≤ h.heapEnd + 24 + (result.2.block h.heapEnd).size
      rw [size]
      omega
  · exact iff_of_false (fun bounded => grows bounded.2.1) fun room => grows room.1

theorem smallHeap_inv : HeapInv smallHeap.heap [] :=
  (heapInit_inv (by decide) smallHeap_start).inv

/-- The block list, the heap's end, the page tables and the set of free frames are as before. -/
structure HeapUnchanged (h after : Heap) : Prop where
  freeList : after.freeList = h.freeList
  block : after.block = h.block
  heapEnd : after.heapEnd = h.heapEnd
  cr3 : after.mm.cr3 = h.mm.cr3
  phys : after.mm.phys = h.mm.phys
  frames : ∀ frame, after.mm.pmm.bitmapTest frame = h.mm.pmm.bitmapTest frame

theorem HeapUnchanged.refl (h : Heap) : HeapUnchanged h h := ⟨rfl, rfl, rfl, rfl, rfl, fun _ => rfl⟩

/-- `pmm_alloc_frame` finds no frame. -/
def Pmm.exhausted (pmm : Pmm) : Prop :=
  pmm.totalFrames ≤ pmm.usedFrames ∨ (pmmScan pmm).join = none

instance (pmm : Pmm) : Decidable pmm.exhausted := inferInstanceAs (Decidable (_ ∨ _))

theorem pmmAllocFrame_exhausted {pmm : Pmm} (none : pmm.exhausted) :
    pmmAllocFrame pmm = (0, pmm) := by
  unfold pmmAllocFrame
  rcases none with full | unfound
  · rw [if_pos full]
  · split
    · rfl
    · split
      · rename_i found
        rw [found] at unfound
        cases unfound
      · rfl

theorem pmmAllocFrame_found {pmm : Pmm} (some : ¬ pmm.exhausted) :
    ∃ frame, pmm.bitmapTest frame = false ∧ (pmmAllocFrame pmm).2 = pmm.bitmapSet frame := by
  obtain ⟨room, found⟩ := not_or.mp some
  obtain ⟨frame, found⟩ := Option.ne_none_iff_exists'.mp found
  have scanned : pmmScan pmm = Option.some (Option.some frame) := by
    rcases scan : pmmScan pmm with _ | _ | other
    · rw [scan] at found
      cases found
    · rw [scan] at found
      cases found
    · rw [scan] at found
      cases found
      rfl
  refine ⟨frame, (pmmScan_found scanned).2, ?_⟩
  rw [pmmAllocFrame, if_neg room, scanned]

theorem heapMapPages_keeps_used {pages : List Nat} {mm : Mm} {frame : Nat}
    (used : mm.pmm.bitmapTest frame = true) :
    (heapMapPages pages mm).2.pmm.bitmapTest frame = true := by
  induction pages generalizing mm with
  | nil => exact used
  | cons page rest ih =>
      rw [heapMapPages]
      split
      · exact allocFrame_keeps used
      · refine ih (vmmMapPage_keeps ?_ _ _ _)
        exact allocFrame_keeps used

theorem heapMapPages_exhausted {page : Nat} {rest : List Nat} {mm : Mm}
    (none : mm.pmm.exhausted) : heapMapPages (page :: rest) mm = (false, mm) := by
  rw [heapMapPages, pmmAllocFrame_exhausted none, if_pos rfl]

theorem heapMapPages_takes {page : Nat} {rest : List Nat} {mm : Mm}
    (some : ¬ mm.pmm.exhausted) :
    ∃ frame, mm.pmm.bitmapTest frame = false ∧
      (heapMapPages (page :: rest) mm).2.pmm.bitmapTest frame = true := by
  obtain ⟨frame, isFree, taken⟩ := pmmAllocFrame_found some
  refine ⟨frame, isFree, ?_⟩
  have used : (pmmAllocFrame mm.pmm).2.bitmapTest frame = true := by
    rw [taken, Pmm.bitmapTest_bitmapSet, decide_eq_true rfl, Bool.true_or]
  rw [heapMapPages]
  split
  · exact used
  · refine heapMapPages_keeps_used (vmmMapPage_keeps ?_ _ _ _)
    exact used

/-- The request needs no growth, cannot grow, gets every frame, or gets none; and the new
block does not begin where its payload would begin at null. -/
def KmallocUndone (h : Heap) (request : Nat) : Prop :=
  request = 0 ∨ firstFit h (allocationSize request) ≠ 0 ∨ h.heapMax < h.newEnd request ∨
    h.heapEnd ≠ 0xFFFFFFE8 ∧
      (runsDry (h.growthPages request) h.mm = false ∨ h.mm.pmm.exhausted)

instance (h : Heap) (request : Nat) : Decidable (KmallocUndone h request) :=
  inferInstanceAs (Decidable (_ ∨ _ ∨ _ ∨ _))

theorem dry_unchanged_iff {h : Heap} {mm : Mm}
    (failed : heapMapPages (h.growthPages request) h.mm = (false, mm)) :
    HeapUnchanged h { h with mm } ↔ h.mm.pmm.exhausted := by
  rcases pages : h.growthPages request with _ | ⟨page, rest⟩
  · rw [pages] at failed
    cases failed
  · rw [pages] at failed
    constructor
    · intro same
      by_contra some
      obtain ⟨frame, isFree, used⟩ := @heapMapPages_takes page rest h.mm some
      rw [failed] at used
      cases (same.frames frame).symm.trans used |>.symm.trans isFree
    · intro none
      rw [heapMapPages_exhausted none] at failed
      cases failed
      exact .refl h

/-- A request that fails changes nothing, exactly unless the heap grows by a page or more
before the frames run out. -/
theorem kmalloc_undone_iff (inv : HeapInv h blocks) (request : Nat) :
    ((kmalloc h request).1 = 0 → HeapUnchanged h (kmalloc h request).2) ↔
      KmallocUndone h request := by
  have dryPages := heapMapPages_runsDry (h.growthPages request) h.mm
  have outcome := inv.kmalloc_outcome request
  unfold KmallocUndone
  generalize kmalloc h request = result at outcome ⊢
  cases outcome with
  | nothing nothing => exact iff_of_true (fun _ => .refl h) (.inl nothing)
  | refused _ _ refused => exact iff_of_true (fun _ => .refl h) (.inr (.inr (.inl refused)))
  | @taken left right a x _ split found _ _ =>
      subst split
      have low := inv.nonNull
      have range := inv.range
      have top := inv.bound
      have ptr : (takeBlock h a (allocationSize request) request).1 = a + 24 :=
        u32_eq_of_lt (show a + 24 < 4294967296 by omega)
      refine iff_of_true (fun null => ?_) (.inr (.inl ?_))
      · omega
      · rw [found]
        omega
  | dry wanted full within failed =>
      rw [failed] at dryPages
      have dry : runsDry (h.growthPages request) h.mm = true := by simpa using dryPages.symm
      have below : h.heapEnd ≠ 0xFFFFFFE8 := by
        intro high
        have last := newEnd_le h request
        rw [Heap.growthPages, pageLoop_nil (by omega)] at failed
        cases failed
      refine (forall_prop_of_true rfl).trans ((dry_unchanged_iff failed).trans ⟨fun none => ?_, ?_⟩)
      · exact .inr (.inr (.inr ⟨below, .inr none⟩))
      · rintro (nothing | fits | refused | ⟨_, enough | none⟩)
        · exact absurd nothing wanted
        · exact absurd full fits
        · exact absurd within (Nat.not_le_of_lt refused)
        · cases enough.symm.trans dry
        · exact none
  | @grown mm wanted full within mapped =>
      rw [mapped] at dryPages
      have enough : runsDry (h.growthPages request) h.mm = false := by simpa using dryPages.symm
      have top := inv.bound
      have last := newEnd_le h request
      obtain ⟨_, stop, _⟩ := appendBlock_bounds { h with mm, heapEnd := h.newEnd request }
        h.heapEnd (allocationSize request) request
      constructor
      · intro undone
        refine .inr (.inr (.inr ⟨fun high => ?_, .inl enough⟩))
        have null : u32 (h.heapEnd + headerSize) = 0 := by
          rw [high]
          decide
        have same := stop.symm.trans (undone null).heapEnd
        have moved : h.newEnd request = h.heapEnd := same
        omega
      · rintro (nothing | fits | refused | ⟨below, _⟩) null
        · exact absurd nothing wanted
        · exact absurd full fits
        · exact absurd within (Nat.not_le_of_lt refused)
        · have wrapped : (h.heapEnd + 24) % 4294967296 = 0 := null
          omega

theorem kmalloc_undone_small :
    HeapUnchanged smallHeap.heap (kmalloc smallHeap.heap 0x900000).2 :=
  (kmalloc_undone_iff smallHeap_inv 0x900000).mpr (by decide) (by decide)

/-- The heap of `smallHeap` over a memory with a single free frame. -/
def oneFrameHeap : HeapRun :=
  ⟨heapInit (Heap.zero (bootMm (pmmInit ⟨1, 8⟩ 0x100000) 5 6)
    (fun _ => ⟨0, 0, 0, 0, 0, false⟩) fun _ => 0) 0xD0000000 0x800000, []⟩

/-- The first of two pages takes the last frame, and the request that fails keeps it. -/
theorem kmalloc_loses_frame :
    HeapInv oneFrameHeap.heap [] ∧ (kmalloc oneFrameHeap.heap 5000).1 = 0 ∧
      ¬ HeapUnchanged oneFrameHeap.heap (kmalloc oneFrameHeap.heap 5000).2 := by
  have inv : HeapInv oneFrameHeap.heap [] :=
    (@heapInit_inv _ 0xD0000000 0x800000 _ (by decide) ⟨_, _, rfl⟩).inv
  refine ⟨inv, by decide, fun same => ?_⟩
  exact absurd (same.frames 257) (by decide)

end ZurichOS
