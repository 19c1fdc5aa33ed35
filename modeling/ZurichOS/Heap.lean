import Mathlib.Data.List.Chain
import ZurichOS.HeapCore
import ZurichOS.Transitions

set_option linter.all false

/-!
The block list of the kernel heap.  A list of addresses and headers describes the
memory behind `free_list`; splitting, appending and coalescing edit that list, and
the layout, the links and the counters follow it through every run.
-/

namespace ZurichOS

open Words DoublyLinked Transitions

def blockEnd (b : Nat × HeapBlock) : Nat := b.1 + headerSize + b.2.size

theorem blockEnd_eq (b : Nat × HeapBlock) : blockEnd b = b.1 + 24 + b.2.size := rfl

def liveBlocks (blocks : List (Nat × HeapBlock)) : List (Nat × Nat) :=
  (blocks.filter fun b => !b.2.free).map fun b => (b.1, b.2.userSize)

def Coalesced (blocks : List (Nat × HeapBlock)) : Prop :=
  blocks.IsChain fun left right => ¬ (left.2.free = true ∧ right.2.free = true)

/-- The blocks behind `free_list` are what the allocator needs them to be. -/
structure HeapSound (h : Heap) (blocks : List (Nat × HeapBlock)) : Prop where
  head : h.freeList = first 0 blocks
  stored : Stored h.block blocks
  linked : Linked 0 0 blocks
  ordered : blocks.Pairwise fun left right => left.1 < right.1
  disjoint : blocks.Pairwise fun left right => blockEnd left ≤ right.1
  inside : ∀ b ∈ blocks, h.heapStart ≤ b.1 ∧ blockEnd b ≤ h.heapEnd
  guarded : ∀ b ∈ blocks, b.2.free = false → b.2.userSize + guardSize ≤ b.2.size
  coalesced : Coalesced blocks
  allocations : h.currentAllocations = (liveBlocks blocks).length
  bytes : h.bytesAllocated = ((liveBlocks blocks).map Prod.snd).sum

/-! Blocks one behind the other in a range of addresses. -/

def Packed (low high : Nat) : List (Nat × HeapBlock) → Prop
  | [] => low ≤ high
  | b :: rest => low ≤ b.1 ∧ Packed (blockEnd b) high rest

theorem Packed.le {low high : Nat} {blocks : List (Nat × HeapBlock)}
    (packed : Packed low high blocks) : low ≤ high := by
  induction blocks generalizing low with
  | nil => exact packed
  | cons b rest ih =>
      have behind := ih packed.2
      have start := packed.1
      rw [blockEnd_eq] at behind
      omega

theorem Packed.mono {low lower high : Nat} {blocks : List (Nat × HeapBlock)}
    (packed : Packed low high blocks) (order : lower ≤ low) : Packed lower high blocks := by
  cases blocks with
  | nil => exact Nat.le_trans order packed
  | cons b rest => exact ⟨Nat.le_trans order packed.1, packed.2⟩

theorem packed_append {low high : Nat} {left right : List (Nat × HeapBlock)} :
    Packed low high (left ++ right) ↔ ∃ middle, Packed low middle left ∧ Packed middle high right := by
  induction left generalizing low with
  | nil =>
      refine ⟨fun packed => ⟨low, Nat.le_refl _, packed⟩, ?_⟩
      rintro ⟨middle, start, packed⟩
      exact packed.mono start
  | cons b rest ih =>
      simp only [List.cons_append, Packed, ih]
      constructor
      · rintro ⟨start, middle, front, back⟩
        exact ⟨middle, ⟨start, front⟩, back⟩
      · rintro ⟨middle, ⟨start, front⟩, back⟩
        exact ⟨start, middle, front, back⟩

theorem packed_relink {low high address : Nat} {blocks : List (Nat × HeapBlock)} :
    Packed low high (relink address blocks) ↔ Packed low high blocks := by
  cases blocks <;> rfl

theorem Packed.inside {low high : Nat} {blocks : List (Nat × HeapBlock)}
    (packed : Packed low high blocks) : ∀ b ∈ blocks, low ≤ b.1 ∧ blockEnd b ≤ high := by
  induction blocks generalizing low with
  | nil => simp
  | cons b rest ih =>
      intro other member
      rcases List.mem_cons.mp member with rfl | later
      · exact ⟨packed.1, packed.2.le⟩
      · obtain ⟨start, stop⟩ := ih packed.2 other later
        have order := packed.1
        rw [blockEnd_eq] at start
        exact ⟨by omega, stop⟩

theorem Packed.disjoint {low high : Nat} {blocks : List (Nat × HeapBlock)}
    (packed : Packed low high blocks) :
    blocks.Pairwise fun left right => blockEnd left ≤ right.1 := by
  induction blocks generalizing low with
  | nil => exact List.Pairwise.nil
  | cons b rest ih =>
      refine List.pairwise_cons.mpr ⟨?_, ih packed.2⟩
      exact fun other later => (packed.2.inside other later).1

theorem Packed.ordered {low high : Nat} {blocks : List (Nat × HeapBlock)}
    (packed : Packed low high blocks) : blocks.Pairwise fun left right => left.1 < right.1 := by
  refine packed.disjoint.imp fun order => ?_
  rw [blockEnd_eq] at order
  omega

theorem Packed.distinct {low high : Nat} {blocks : List (Nat × HeapBlock)}
    (packed : Packed low high blocks) : Distinct blocks := by
  refine List.pairwise_map.mpr (packed.ordered.imp fun order => ?_)
  exact Nat.ne_of_lt order

theorem Packed.length {low high : Nat} {blocks : List (Nat × HeapBlock)}
    (packed : Packed low high blocks) : low + 24 * blocks.length ≤ high := by
  induction blocks generalizing low with
  | nil => exact packed
  | cons b rest ih =>
      have behind := ih packed.2
      have start := packed.1
      rw [blockEnd_eq] at behind
      rw [List.length_cons]
      omega

/-! Live blocks. -/

@[simp] theorem liveBlocks_append (left right : List (Nat × HeapBlock)) :
    liveBlocks (left ++ right) = liveBlocks left ++ liveBlocks right := by
  simp [liveBlocks]

theorem liveBlocks_free {b : Nat × HeapBlock} (free : b.2.free = true)
    (rest : List (Nat × HeapBlock)) : liveBlocks (b :: rest) = liveBlocks rest := by
  simp [liveBlocks, free]

theorem liveBlocks_live {b : Nat × HeapBlock} (live : b.2.free = false)
    (rest : List (Nat × HeapBlock)) :
    liveBlocks (b :: rest) = (b.1, b.2.userSize) :: liveBlocks rest := by
  simp [liveBlocks, live]

@[simp] theorem liveBlocks_relink (address : Nat) (blocks : List (Nat × HeapBlock)) :
    liveBlocks (relink address blocks) = liveBlocks blocks := by
  cases blocks with
  | nil => rfl
  | cons b rest => cases free : b.2.free <;> simp [relink, liveBlocks, Links.withPrev, free]

def BlockSound (b : HeapBlock) : Prop :=
  b.magic = heapMagic ∧ (b.free = false → b.userSize + guardSize ≤ b.size)

theorem Packed.bytes {low high : Nat} {blocks : List (Nat × HeapBlock)}
    (packed : Packed low high blocks) (each : ∀ b ∈ blocks, BlockSound b.2) :
    low + ((liveBlocks blocks).map Prod.snd).sum ≤ high := by
  induction blocks generalizing low with
  | nil => exact packed
  | cons b rest ih =>
      have behind := ih packed.2 fun other later => each other (by simp [later])
      have start := packed.1
      rw [blockEnd_eq] at behind
      cases free : b.2.free with
      | true =>
          rw [liveBlocks_free free]
          omega
      | false =>
          have room := (each b (by simp)).2 free
          rw [liveBlocks_live free, List.map_cons, List.sum_cons]
          omega

/-! The list in memory, and the edits the allocator makes to it. -/

structure HeapList (h : Heap) (blocks : List (Nat × HeapBlock)) : Prop where
  head : h.freeList = first 0 blocks
  stored : Stored h.block blocks
  linked : Linked 0 0 blocks
  packed : Packed h.heapStart h.heapEnd blocks
  nonNull : 16 ≤ h.heapStart
  bound : h.heapEnd < 4294967296

variable {h : Heap} {blocks left right : List (Nat × HeapBlock)} {a : Nat} {x : HeapBlock}

theorem HeapList.block_nonNull (list : HeapList h blocks) : ∀ b ∈ blocks, b.1 ≠ 0 := by
  intro b member
  have start := (list.packed.inside b member).1
  have positive := list.nonNull
  omega

theorem HeapList.own (list : HeapList h (left ++ (a, x) :: right)) : h.block a = x :=
  list.stored (a, x) (by simp)

theorem HeapList.range (list : HeapList h (left ++ (a, x) :: right)) :
    h.heapStart ≤ a ∧ a + 24 + x.size ≤ h.heapEnd :=
  list.packed.inside (a, x) (by simp)

theorem HeapList.onward (list : HeapList h (left ++ (a, x) :: right)) :
    x.next = first 0 right :=
  ((linked_append _ _ _ _).mp list.linked).2.2.1

theorem HeapList.back (list : HeapList h (left ++ (a, x) :: right)) :
    x.prev = last 0 left :=
  ((linked_append _ _ _ _).mp list.linked).2.1

theorem HeapList.length_lt (list : HeapList h blocks) : blocks.length < h.fuel := by
  have counted := list.packed.length
  unfold Heap.fuel
  omega

theorem first_replace (left right rest : List (Nat × HeapBlock)) (x y : HeapBlock) :
    first 0 (left ++ (a, x) :: right) = first 0 (left ++ (a, y) :: rest) := by
  rw [first_append, first_append]
  rfl

theorem HeapList.edit (list : HeapList h (left ++ (a, x) :: right))
    (change : HeapBlock → HeapBlock) (same_prev : (change x).prev = x.prev)
    (same_next : (change x).next = x.next) (same_size : (change x).size = x.size) :
    HeapList (h.edit a change) (left ++ (a, change x) :: right) := by
  refine ⟨?_, ?_, ?_, ?_, list.nonNull, list.bound⟩
  · exact list.head.trans (first_replace left right right _ _)
  · exact list.stored.edit_at list.packed.distinct change
  · exact linked_replace list.linked same_prev same_next
  · obtain ⟨middle, front, start, back⟩ := packed_append.mp list.packed
    refine packed_append.mpr ⟨middle, front, start, ?_⟩
    rw [blockEnd_eq] at back ⊢
    rwa [same_size]

/-- The list after a split: the tail of the block is a free block of its own. -/
def splitList (h : Heap) (left right : List (Nat × HeapBlock)) (a : Nat) (x : HeapBlock)
    (size : Nat) : List (Nat × HeapBlock) :=
  let fresh := a + 24 + size
  left ++ (a, { x with next := fresh, size }) ::
    (fresh,
      { h.block fresh with
        size := x.size - size - 24, magic := heapMagic, free := true, next := x.next
        prev := a }) ::
    relink fresh right

theorem HeapList.splitList_packed (list : HeapList h (left ++ (a, x) :: right)) {size : Nat}
    (room : size + 24 ≤ x.size) :
    Packed h.heapStart h.heapEnd (splitList h left right a x size) := by
  obtain ⟨middle, front, start, back⟩ := packed_append.mp list.packed
  refine packed_append.mpr ⟨middle, front, start, Nat.le_refl _, packed_relink.mpr ?_⟩
  have stop : a + 24 + size + 24 + (x.size - size - 24) = a + 24 + x.size := by omega
  simpa only [blockEnd_eq, stop] using back

theorem HeapList.split (list : HeapList h (left ++ (a, x) :: right)) {size : Nat}
    (room : size + 24 ≤ x.size) :
    HeapList (splitBlock h a size) (splitList h left right a x size) := by
  have range := list.range
  have top := list.bound
  have fresh : u32 (a + 24 + size) = a + 24 + size := u32_eq_of_lt (by omega)
  have first_cut : sub32 x.size size = x.size - size := sub32_eq (by omega) (by omega)
  have rest : sub32 (sub32 x.size size) 24 = x.size - size - 24 := by
    rw [first_cut, sub32_eq (by omega) (by omega)]
  have packed := list.splitList_packed room
  have absent : ∀ other ∈ left ++ (a, x) :: right, other.1 ≠ a + 24 + size := by
    have spread : Distinct ((left ++ [(a, x)]) ++ (a + 24 + size, x) :: right) := by
      have distinct := packed.distinct
      simpa [splitList, Distinct, map_relink Prod.fst (fun _ _ _ => rfl)] using distinct
    obtain ⟨before, behind⟩ := spread.split
    intro other member
    rcases List.mem_append.mp
      (show other ∈ (left ++ [(a, x)]) ++ right by simpa using member) with inFront | later
    · exact before other inFront
    · exact behind other later
  have nonNull : ∀ other ∈ right, other.1 ≠ 0 := fun other member =>
    list.block_nonNull other (by simp [member])
  refine ⟨?_, ?_, ?_, packed, list.nonNull, list.bound⟩
  · exact list.head.trans (first_replace left right _ _ _)
  · have stored := list.stored.insert list.packed.distinct nonNull absent
      (fun b =>
        { b with
          size := x.size - size - 24, magic := heapMagic, free := true, next := x.next
          prev := a })
      fun b => { b with next := a + 24 + size, size }
    rw [← list.onward] at stored
    simpa only [splitBlock, splitList, Heap.edit, Heap.relink, list.own, fresh, rest] using stored
  · exact linked_insert list.linked rfl rfl rfl rfl

def absorbBlock (h : Heap) (a : Nat) (y : HeapBlock) : Heap :=
  (h.edit a fun b =>
    { b with size := u32 (b.size + u32 (headerSize + y.size)), next := y.next }).relink y.next a

theorem HeapList.absorb {d : Nat} {y : HeapBlock}
    (list : HeapList h (left ++ (a, x) :: (d, y) :: right)) :
    HeapList (absorbBlock h a y)
      (left ++ (a, { x with size := x.size + 24 + y.size, next := y.next }) ::
        relink a right) := by
  have top := list.bound
  obtain ⟨middle, front, start, order, back⟩ := packed_append.mp list.packed
  have stop := back.le
  rw [blockEnd_eq] at order stop
  dsimp only at start order stop
  have size : u32 (x.size + u32 (24 + y.size)) = x.size + 24 + y.size := by
    rw [u32_eq_of_lt (show 24 + y.size < 4294967296 by omega), u32_eq_of_lt (by omega)]
    omega
  refine ⟨?_, ?_, ?_, ?_, list.nonNull, list.bound⟩
  · exact list.head.trans (first_replace left _ _ _ _)
  · have nonNull : ∀ other ∈ right, other.1 ≠ 0 := fun other member =>
      list.block_nonNull other (by simp [member])
    have stored := list.stored.remove list.packed.distinct nonNull fun b =>
      { b with size := u32 (b.size + u32 (headerSize + y.size)), next := y.next }
    have follower : y.next = first 0 right :=
      (show HeapList h ((left ++ [(a, x)]) ++ (d, y) :: right) by simpa using list).onward
    rw [size, ← follower] at stored
    exact stored
  · exact linked_remove list.linked rfl rfl
  · refine packed_append.mpr ⟨middle, front, start, packed_relink.mpr (back.mono ?_)⟩
    rw [blockEnd_eq, blockEnd_eq]
    dsimp only
    omega

theorem HeapList.record (list : HeapList h blocks) (ptr userSize : Nat) :
    HeapList (recordAllocation (setGuard h ptr userSize) userSize) blocks :=
  ⟨list.head, list.stored, list.linked, list.packed, list.nonNull, list.bound⟩

def newBlock (size userSize prev : Nat) : HeapBlock :=
  { size, userSize, magic := heapMagic, next := 0, prev, free := false }

/-- The list of blocks that the walk from `free_list` passes, wherever they lie. -/
structure Threaded (h : Heap) (blocks : List (Nat × HeapBlock)) : Prop where
  head : h.freeList = first 0 blocks
  stored : Stored h.block blocks
  linked : Linked 0 0 blocks

theorem HeapList.append_first_threaded (list : HeapList h []) (mm : Mm) (newEnd size userSize : Nat) :
    Threaded (appendBlock { h with mm, heapEnd := newEnd } h.heapEnd size userSize).2
      [(h.heapEnd, newBlock size userSize 0)] := by
  have empty : h.freeList = 0 := list.head
  simp only [appendBlock, Heap.edit, empty, if_true]
  refine ⟨rfl, ?_, ⟨rfl, rfl, trivial⟩⟩
  intro node member
  rw [List.mem_singleton.mp member]
  exact edit_self h.block h.heapEnd fun _ => newBlock size userSize 0

theorem HeapList.append_last_threaded (list : HeapList h (left ++ [(a, x)])) (mm : Mm)
    {newEnd : Nat} (size userSize : Nat) (grows : h.heapEnd ≤ newEnd) :
    Threaded (appendBlock { h with mm, heapEnd := newEnd } h.heapEnd size userSize).2
      (left ++ [(a, { x with next := h.heapEnd }), (h.heapEnd, newBlock size userSize a)]) := by
  have nonNull := list.block_nonNull
  have absent : ∀ other ∈ left ++ [(a, x)], other.1 ≠ h.heapEnd := by
    intro other member
    have stop := (list.packed.inside other member).2
    rw [blockEnd_eq] at stop
    omega
  have occupied : h.freeList ≠ 0 := by
    rw [list.head, first_append]
    cases left with
    | nil => exact nonNull (a, x) (by simp)
    | cons node rest => exact nonNull node (by simp)
  have reached : lastFrom
      (DoublyLinked.edit h.block h.heapEnd fun _ => newBlock size userSize 0)
      (newEnd + 1) h.freeList = a := by
    have short := list.length_lt
    rw [list.head]
    refine lastFrom_concat (list.stored.edit absent _) list.linked nonNull ?_
    simp only [Heap.fuel, List.length_append, List.length_singleton] at short
    omega
  simp only [newBlock] at reached
  simp only [appendBlock, Heap.edit, Heap.fuel, occupied, if_false, reached]
  refine ⟨?_, ?_, ?_⟩
  · exact list.head.trans (first_replace left [] _ _ _)
  · exact list.stored.extend list.packed.distinct absent _ _ fun b => { b with prev := a }
  · exact linked_extend list.linked rfl rfl rfl rfl

theorem appendBlock_bounds (h : Heap) (block size userSize : Nat) :
    (appendBlock h block size userSize).2.heapStart = h.heapStart ∧
      (appendBlock h block size userSize).2.heapEnd = h.heapEnd ∧
      (appendBlock h block size userSize).2.heapMax = h.heapMax := by
  by_cases empty : h.freeList = 0
  · simp only [appendBlock, recordAllocation, setGuard, Heap.edit, empty, if_true, and_self]
  · simp only [appendBlock, recordAllocation, setGuard, Heap.edit, empty, if_false, and_self]

theorem HeapList.of_threaded {now : Heap} {grown : List (Nat × HeapBlock)}
    (threaded : Threaded now grown) (packed : Packed now.heapStart now.heapEnd grown)
    (nonNull : 16 ≤ now.heapStart) (bound : now.heapEnd < 4294967296) : HeapList now grown :=
  ⟨threaded.head, threaded.stored, threaded.linked, packed, nonNull, bound⟩

theorem HeapList.append_first (list : HeapList h []) (mm : Mm) {newEnd size : Nat}
    (userSize : Nat) (order : h.heapEnd + 24 + size ≤ newEnd) (bound : newEnd < 4294967296) :
    HeapList (appendBlock { h with mm, heapEnd := newEnd } h.heapEnd size userSize).2
      [(h.heapEnd, newBlock size userSize 0)] := by
  obtain ⟨start, stop, _⟩ :=
    appendBlock_bounds { h with mm, heapEnd := newEnd } h.heapEnd size userSize
  refine .of_threaded (list.append_first_threaded mm newEnd size userSize) ?_ ?_ ?_
  · rw [start, stop]
    exact ⟨list.packed, order⟩
  · rw [start]
    exact list.nonNull
  · rw [stop]
    exact bound

theorem HeapList.append_last (list : HeapList h (left ++ [(a, x)])) (mm : Mm)
    {newEnd size : Nat} (userSize : Nat) (order : h.heapEnd + 24 + size ≤ newEnd)
    (bound : newEnd < 4294967296) :
    HeapList (appendBlock { h with mm, heapEnd := newEnd } h.heapEnd size userSize).2
      (left ++ [(a, { x with next := h.heapEnd }), (h.heapEnd, newBlock size userSize a)]) := by
  obtain ⟨start, stop, _⟩ :=
    appendBlock_bounds { h with mm, heapEnd := newEnd } h.heapEnd size userSize
  refine .of_threaded (list.append_last_threaded mm size userSize (by omega)) ?_ ?_ ?_
  · rw [start, stop]
    obtain ⟨middle, front, first, final⟩ := packed_append.mp list.packed
    exact packed_append.mpr ⟨middle, front, first, final, order⟩
  · rw [start]
    exact list.nonNull
  · rw [stop]
    exact bound

/-! What the headers say. -/

structure HeapInv (h : Heap) (blocks : List (Nat × HeapBlock)) : Prop extends
    HeapList h blocks where
  each : ∀ b ∈ blocks, BlockSound b.2
  coalesced : Coalesced blocks

theorem each_middle :
    (∀ b ∈ left ++ (a, x) :: right, BlockSound b.2) ↔
      (∀ b ∈ left, BlockSound b.2) ∧ BlockSound x ∧ ∀ b ∈ right, BlockSound b.2 := by
  rw [List.forall_mem_append, List.forall_mem_cons]

theorem each_relink : (∀ b ∈ relink a right, BlockSound b.2) ↔ ∀ b ∈ right, BlockSound b.2 := by
  cases right with
  | nil => rfl
  | cons b rest => simp only [relink, List.forall_mem_cons]; rfl

theorem coalesced_relink : Coalesced (relink a right) ↔ Coalesced right := by
  match right with
  | [] => rfl
  | [_] => simp [relink, Coalesced]
  | _ :: _ :: _ => simp only [relink, Coalesced, List.isChain_cons_cons]; rfl

def StartsLive (blocks : List (Nat × HeapBlock)) : Prop := ∀ b ∈ blocks.head?, b.2.free = false

def EndsLive (blocks : List (Nat × HeapBlock)) : Prop := ∀ b ∈ blocks.getLast?, b.2.free = false

theorem coalesced_live (live : x.free = false) :
    Coalesced (left ++ (a, x) :: right) ↔ Coalesced left ∧ Coalesced right := by
  simp only [Coalesced, List.isChain_append, List.isChain_cons]
  constructor
  · rintro ⟨front, ⟨_, back⟩, _⟩
    exact ⟨front, back⟩
  · rintro ⟨front, back⟩
    exact ⟨front, ⟨by simp [live], back⟩, by simp [live]⟩

theorem coalesced_free (free : x.free = true) :
    Coalesced (left ++ (a, x) :: right) ↔
      Coalesced left ∧ Coalesced right ∧ EndsLive left ∧ StartsLive right := by
  simp only [Coalesced, List.isChain_append, List.isChain_cons]
  constructor
  · rintro ⟨front, ⟨after, back⟩, before⟩
    refine ⟨front, back, fun b final => ?_, fun b initial => ?_⟩
    · simpa [free] using before b final (a, x) rfl
    · simpa [free] using after b initial
  · rintro ⟨front, back, before, after⟩
    refine ⟨front, ⟨fun b initial => ?_, back⟩, fun b final c own => ?_⟩
    · simp [after b initial]
    · simp [before b final]

theorem coalesced_cons_free (free : x.free = true) :
    Coalesced ((a, x) :: right) ↔ Coalesced right ∧ StartsLive right := by
  have whole := @coalesced_free [] right a x free
  simpa [Coalesced, EndsLive] using whole

theorem startsLive_relink : StartsLive (relink a right) ↔ StartsLive right := by
  cases right with
  | nil => rfl
  | cons b rest => simp [relink, StartsLive, Links.withPrev]

theorem HeapInv.takeBlock (inv : HeapInv h (left ++ (a, x) :: right)) (free : x.free = true)
    {size userSize : Nat} (room : size ≤ x.size) (fits : userSize + 4 ≤ size) :
    (takeBlock h a size userSize).1 = a + 24 ∧
      ∃ after, HeapInv (takeBlock h a size userSize).2 after ∧
        (liveBlocks after).Perm ((a, userSize) :: liveBlocks (left ++ (a, x) :: right)) := by
  obtain ⟨front_each, own_each, back_each⟩ := each_middle.mp inv.each
  obtain ⟨front_chain, back_chain, ends, starts⟩ := (coalesced_free free).mp inv.coalesced
  have range := inv.range
  have low := inv.nonNull
  have top := inv.bound
  refine ⟨u32_eq_of_lt (show a + 24 < 4294967296 by omega), ?_⟩
  have unwrapped : u32 (size + 24 + 16) = size + 24 + 16 := u32_eq_of_lt (by omega)
  have before : liveBlocks (left ++ (a, x) :: right) = liveBlocks left ++ liveBlocks right := by
    rw [liveBlocks_append, liveBlocks_free free]
  rw [before]
  simp only [ZurichOS.takeBlock, headerSize, heapMinSize, unwrapped, inv.own]
  by_cases large : size + 24 + 16 ≤ x.size
  · simp only [large, if_true]
    have enough : size + 24 ≤ x.size := by omega
    have taken := ((inv.toHeapList.split enough).edit
      (fun b => { b with free := false, userSize }) rfl rfl rfl).record (u32 (a + 24)) userSize
    refine ⟨_, ⟨taken, ?_, ?_⟩, ?_⟩
    · refine each_middle.mpr ⟨front_each, ⟨own_each.1, fun _ => fits⟩, ?_⟩
      exact List.forall_mem_cons.mpr ⟨⟨rfl, by simp⟩, each_relink.mpr back_each⟩
    · refine (coalesced_live rfl).mpr ⟨front_chain, ?_⟩
      exact (coalesced_cons_free rfl).mpr
        ⟨coalesced_relink.mpr back_chain, startsLive_relink.mpr starts⟩
    · rw [liveBlocks_append, liveBlocks_live rfl, liveBlocks_free rfl, liveBlocks_relink]
      exact List.perm_middle
  · simp only [large, if_false]
    have taken := (inv.toHeapList.edit
      (fun b => { b with free := false, userSize }) rfl rfl rfl).record (u32 (a + 24)) userSize
    refine ⟨_, ⟨taken, ?_, ?_⟩, ?_⟩
    · exact each_middle.mpr ⟨front_each, ⟨own_each.1, fun _ => Nat.le_trans fits room⟩, back_each⟩
    · exact (coalesced_live rfl).mpr ⟨front_chain, back_chain⟩
    · rw [liveBlocks_append, liveBlocks_live rfl]
      exact List.perm_middle

theorem newBlock_sound {size userSize : Nat} (prev : Nat) (fits : userSize + 4 ≤ size) :
    BlockSound (newBlock size userSize prev) :=
  ⟨rfl, fun _ => fits⟩

theorem HeapInv.appendBlock (inv : HeapInv h blocks) (mm : Mm) {newEnd size userSize : Nat}
    (fits : userSize + 4 ≤ size) (order : h.heapEnd + 24 + size ≤ newEnd)
    (bound : newEnd < 4294967296) :
    ∃ after,
      HeapInv (appendBlock { h with mm, heapEnd := newEnd } h.heapEnd size userSize).2 after ∧
        (liveBlocks after).Perm ((h.heapEnd, userSize) :: liveBlocks blocks) := by
  rcases List.eq_nil_or_concat blocks with rfl | ⟨left, ⟨a, x⟩, rfl⟩
  · refine ⟨_, ⟨inv.toHeapList.append_first mm userSize order bound, ?_, ?_⟩, ?_⟩
    · exact List.forall_mem_singleton.mpr (newBlock_sound 0 fits)
    · exact List.isChain_singleton _
    · rw [liveBlocks_live rfl]
      exact List.Perm.refl _
  · rw [List.concat_eq_append] at inv ⊢
    obtain ⟨front_each, own_each, _⟩ := each_middle.mp inv.each
    refine ⟨_, ⟨inv.toHeapList.append_last mm userSize order bound, ?_, ?_⟩, ?_⟩
    · refine each_middle.mpr ⟨front_each, own_each, ?_⟩
      exact List.forall_mem_singleton.mpr (newBlock_sound a fits)
    · have whole : Coalesced ((left ++ [(a, { x with next := h.heapEnd })]) ++
          (h.heapEnd, newBlock size userSize a) :: []) := by
        refine (coalesced_live rfl).mpr ⟨?_, List.isChain_nil⟩
        have chain := inv.coalesced
        unfold Coalesced at chain ⊢
        rw [List.isChain_append] at chain ⊢
        simpa using chain
      simpa using whole
    · have same : liveBlocks [(a, { x with next := h.heapEnd })] = liveBlocks [(a, x)] := by
        cases free : x.free <;> simp [liveBlocks, free]
      have grown : liveBlocks (left ++ [(a, { x with next := h.heapEnd }),
          (h.heapEnd, newBlock size userSize a)]) =
            (liveBlocks left ++ liveBlocks [(a, x)]) ++ [(h.heapEnd, userSize)] := by
        rw [← same, ← liveBlocks_append, List.append_cons, liveBlocks_append]
        rfl
      rw [grown, liveBlocks_append]
      exact List.perm_append_singleton _ _

/-! Counters. -/

structure Counted (h : Heap) (blocks : List (Nat × HeapBlock)) : Prop where
  allocations : h.currentAllocations = (liveBlocks blocks).length
  bytes : h.bytesAllocated = ((liveBlocks blocks).map Prod.snd).sum

theorem HeapInv.live_lt (inv : HeapInv h blocks) :
    (liveBlocks blocks).length < 4294967296 ∧
      ((liveBlocks blocks).map Prod.snd).sum < 4294967296 := by
  have top := inv.bound
  have counted := inv.packed.length
  have summed := inv.packed.bytes inv.each
  have some_live : (liveBlocks blocks).length ≤ blocks.length := by
    simpa [liveBlocks] using List.length_filter_le _ blocks
  omega

theorem Counted.allocate {after : Heap} {before now : List (Nat × HeapBlock)} {userSize : Nat}
    (counted : Counted h before) (inv : HeapInv after now)
    (added : (liveBlocks now).Perm ((a, userSize) :: liveBlocks before))
    (allocations : after.currentAllocations = u32 (h.currentAllocations + 1))
    (bytes : after.bytesAllocated = u32 (h.bytesAllocated + userSize)) : Counted after now := by
  obtain ⟨few, small⟩ := inv.live_lt
  have length := added.length_eq
  have sum := (added.map Prod.snd).sum_nat
  rw [List.length_cons] at length
  rw [List.map_cons, List.sum_cons] at sum
  rw [counted.allocations, ← length, u32_eq_of_lt few] at allocations
  rw [counted.bytes, Nat.add_comm, ← sum, u32_eq_of_lt small] at bytes
  exact ⟨allocations, bytes⟩

theorem Counted.release {after : Heap} {before now : List (Nat × HeapBlock)} {userSize : Nat}
    (counted : Counted h before) (inv : HeapInv h before)
    (dropped : (liveBlocks before).Perm ((a, userSize) :: liveBlocks now))
    (allocations : after.currentAllocations = sub32 h.currentAllocations 1)
    (bytes : after.bytesAllocated = sub32 h.bytesAllocated userSize) : Counted after now := by
  obtain ⟨few, small⟩ := inv.live_lt
  have length := dropped.length_eq
  have sum := (dropped.map Prod.snd).sum_nat
  rw [List.length_cons] at length
  rw [List.map_cons, List.sum_cons] at sum
  rw [counted.allocations, sub32_eq (by omega) few] at allocations
  rw [counted.bytes, sub32_eq (by omega) small] at bytes
  exact ⟨by omega, by omega⟩

theorem takeBlock_counters (h : Heap) (block size userSize : Nat) :
    (takeBlock h block size userSize).2.currentAllocations = u32 (h.currentAllocations + 1) ∧
      (takeBlock h block size userSize).2.bytesAllocated = u32 (h.bytesAllocated + userSize) := by
  simp only [takeBlock, recordAllocation, setGuard, Heap.edit]
  split <;> simp only [splitBlock, Heap.edit, Heap.relink, and_self]

theorem appendBlock_counters (h : Heap) (block size userSize : Nat) :
    (appendBlock h block size userSize).2.currentAllocations = u32 (h.currentAllocations + 1) ∧
      (appendBlock h block size userSize).2.bytesAllocated =
        u32 (h.bytesAllocated + userSize) := by
  by_cases empty : h.freeList = 0
  · simp only [appendBlock, recordAllocation, setGuard, Heap.edit, empty, if_true, and_self]
  · simp only [appendBlock, recordAllocation, setGuard, Heap.edit, empty, if_false, and_self]

theorem allocationSize_eq {request : Nat} (small : request ≤ 0xFFFFFFEC) :
    allocationSize request = (request + 19) / 16 * 16 := by
  have aligned : alignUp (request + guardSize) 16 = (request + 19) / 16 * 16 := by
    rw [alignUp_16, Nat.mod_eq_of_lt (show request + 4 + 15 < 4294967296 by omega)]
  simp only [allocationSize, aligned, heapMinSize]
  split <;> omega

theorem allocationSize_bounds {request : Nat} (small : request ≤ 0xFFFFFFDC) :
    request + 4 ≤ allocationSize request ∧ allocationSize request + 24 < 4294967296 := by
  rw [allocationSize_eq (by omega)]
  omega

theorem HeapInv.firstFit_eq (inv : HeapInv h blocks) (size : Nat) :
    firstFit h size =
      ((blocks.find? fun node => node.2.free && decide (size ≤ node.2.size)).map
        Prod.fst).getD 0 := by
  rw [firstFit, inv.head]
  exact searchFrom_eq (fun b => b.free && decide (size ≤ b.size)) inv.stored inv.linked
    inv.block_nonNull inv.length_lt

/-- The new end of a heap that grows by a block for `request`. -/
def Heap.newEnd (h : Heap) (request : Nat) : Nat :=
  alignUp (h.heapEnd + u32 (headerSize + allocationSize request)) 4096

def Heap.growthPages (h : Heap) (request : Nat) : List Nat :=
  pageLoop h.heapEnd (h.newEnd request)

/-- What `kmalloc` returns and the heap it leaves, by the paths through it. -/
inductive KmallocOutcome (h : Heap) (blocks : List (Nat × HeapBlock)) (request : Nat) :
    Nat × Heap → Prop
  | nothing : request = 0 → KmallocOutcome h blocks request (0, h)
  | taken {left right : List (Nat × HeapBlock)} {a : Nat} {x : HeapBlock} : request ≠ 0 →
      blocks = left ++ (a, x) :: right → firstFit h (allocationSize request) = a →
      x.free = true → allocationSize request ≤ x.size →
      KmallocOutcome h blocks request (takeBlock h a (allocationSize request) request)
  | refused : request ≠ 0 → firstFit h (allocationSize request) = 0 →
      h.heapMax < h.newEnd request → KmallocOutcome h blocks request (0, h)
  | dry {mm : Mm} : request ≠ 0 → firstFit h (allocationSize request) = 0 →
      h.newEnd request ≤ h.heapMax → heapMapPages (h.growthPages request) h.mm = (false, mm) →
      KmallocOutcome h blocks request (0, { h with mm })
  | grown {mm : Mm} : request ≠ 0 → firstFit h (allocationSize request) = 0 →
      h.newEnd request ≤ h.heapMax → heapMapPages (h.growthPages request) h.mm = (true, mm) →
      KmallocOutcome h blocks request
        (appendBlock { h with mm, heapEnd := h.newEnd request } h.heapEnd
          (allocationSize request) request)

theorem heapExpand_eq (h : Heap) (request : Nat) :
    heapExpand h (u32 (headerSize + allocationSize request)) =
      if h.heapMax < h.newEnd request then (-1, h)
      else if (heapMapPages (h.growthPages request) h.mm).1 then
        (0, { h with
          mm := (heapMapPages (h.growthPages request) h.mm).2, heapEnd := h.newEnd request })
      else (-1, { h with mm := (heapMapPages (h.growthPages request) h.mm).2 }) :=
  rfl

theorem kmalloc_grows {request : Nat} (wanted : request ≠ 0)
    (full : firstFit h (allocationSize request) = 0) :
    KmallocOutcome h blocks request (kmalloc h request) := by
  have expanded := heapExpand_eq h request
  simp only [kmalloc, if_neg wanted, full, ne_eq, not_true_eq_false, if_false]
  by_cases refused : h.heapMax < h.newEnd request
  · rw [if_pos refused] at expanded
    rw [expanded, if_pos (by simp)]
    exact .refused wanted full refused
  have within : h.newEnd request ≤ h.heapMax := Nat.le_of_not_lt refused
  rw [if_neg refused] at expanded
  rcases mapped : heapMapPages (h.growthPages request) h.mm with ⟨enough, mm⟩
  rw [mapped] at expanded
  cases enough with
  | false =>
      rw [if_neg Bool.false_ne_true] at expanded
      rw [expanded, if_pos (by simp)]
      exact .dry wanted full within mapped
  | true =>
      rw [if_pos rfl] at expanded
      rw [expanded, if_neg (by simp)]
      exact .grown wanted full within mapped

theorem HeapInv.kmalloc_outcome (inv : HeapInv h blocks) (request : Nat) :
    KmallocOutcome h blocks request (kmalloc h request) := by
  by_cases nothing : request = 0
  · rw [kmalloc, if_pos nothing]
    exact .nothing nothing
  have search := inv.firstFit_eq (allocationSize request)
  cases found : blocks.find? fun node =>
      node.2.free && decide (allocationSize request ≤ node.2.size) with
  | none =>
      rw [found, Option.map_none, Option.getD_none] at search
      exact kmalloc_grows nothing search
  | some node =>
      obtain ⟨a, x⟩ := node
      rw [found, Option.map_some, Option.getD_some] at search
      obtain ⟨wanted, left, right, rfl, _⟩ := List.find?_eq_some_iff_append.mp found
      simp only [Bool.and_eq_true, decide_eq_true_eq] at wanted
      have nonNull : firstFit h (allocationSize request) ≠ 0 := by
        rw [search]
        exact inv.block_nonNull (a, x) (by simp)
      have body : kmalloc h request = ZurichOS.takeBlock h a (allocationSize request) request := by
        simp only [kmalloc, nothing, if_false, nonNull, ne_eq, not_false_eq_true, if_true]
        rw [search]
      rw [body]
      exact .taken nothing rfl search wanted.1 wanted.2

/-- A heap that grows without wrapping ends behind its new block. -/
theorem newEnd_bounds {request : Nat} (small : request ≤ 0xFFFFFFDC)
    (full : firstFit h (allocationSize request) = 0) (stays : ¬ h.endWraps request) :
    h.heapEnd + 24 + allocationSize request ≤ h.newEnd request ∧
      h.newEnd request < 4294967296 := by
  have unwrapped := (allocationSize_bounds small).2
  have room : h.heapEnd + (24 + allocationSize request) + 4095 < 4294967296 := by
    simp only [Heap.endWraps, full, true_and, headerSize] at stays
    omega
  rw [Heap.newEnd, headerSize, u32_eq_of_lt (by omega), alignUp_4096, Nat.mod_eq_of_lt room]
  omega

/-- A request either fails and leaves the list alone or adds one live block. -/
theorem HeapInv.kmalloc (inv : HeapInv h blocks) {request : Nat} (small : request ≤ 0xFFFFFFDC)
    (stays : ¬ h.endWraps request) :
    ∃ after, HeapInv (ZurichOS.kmalloc h request).2 after ∧
      ((ZurichOS.kmalloc h request).1 = 0 ∧ after = blocks ∧
          (ZurichOS.kmalloc h request).2.currentAllocations = h.currentAllocations ∧
          (ZurichOS.kmalloc h request).2.bytesAllocated = h.bytesAllocated ∨
        ∃ a, (ZurichOS.kmalloc h request).1 = a + 24 ∧
          (liveBlocks after).Perm ((a, request) :: liveBlocks blocks) ∧
          (ZurichOS.kmalloc h request).2.currentAllocations = u32 (h.currentAllocations + 1) ∧
          (ZurichOS.kmalloc h request).2.bytesAllocated = u32 (h.bytesAllocated + request)) := by
  have fits := (allocationSize_bounds small).1
  have outcome := inv.kmalloc_outcome request
  generalize ZurichOS.kmalloc h request = result at outcome ⊢
  cases outcome with
  | nothing _ | refused _ _ _ => exact ⟨blocks, inv, Or.inl ⟨rfl, rfl, rfl, rfl⟩⟩
  | taken _ split _ free room =>
      subst split
      obtain ⟨ptr, after, kept, added⟩ := inv.takeBlock free room fits
      exact ⟨after, kept, Or.inr ⟨_, ptr, added, takeBlock_counters h _ _ request⟩⟩
  | dry _ _ _ _ =>
      exact ⟨blocks, ⟨⟨inv.head, inv.stored, inv.linked, inv.packed, inv.nonNull, inv.bound⟩,
        inv.each, inv.coalesced⟩, Or.inl ⟨rfl, rfl, rfl, rfl⟩⟩
  | @grown mm _ full _ _ =>
      obtain ⟨order, bound⟩ := newEnd_bounds small full stays
      obtain ⟨after, kept, added⟩ := inv.appendBlock mm fits order bound
      have ptr : u32 (h.heapEnd + headerSize) = h.heapEnd + 24 :=
        u32_eq_of_lt (show h.heapEnd + 24 < 4294967296 by omega)
      exact ⟨after, kept, Or.inr ⟨h.heapEnd, ptr, added, appendBlock_counters _ _ _ request⟩⟩

theorem kmalloc_cases (inv : HeapInv h blocks) (counted : Counted h blocks) {request : Nat}
    (small : request ≤ 0xFFFFFFDC) (stays : ¬ h.endWraps request) :
    ∃ after, HeapInv (kmalloc h request).2 after ∧ Counted (kmalloc h request).2 after ∧
      ((kmalloc h request).1 = 0 ∧ after = blocks ∨
        ∃ a, (kmalloc h request).1 = a + 24 ∧
          (liveBlocks after).Perm ((a, request) :: liveBlocks blocks)) := by
  obtain ⟨after, kept, outcome⟩ := inv.kmalloc small stays
  rcases outcome with ⟨failed, rfl, allocations, bytes⟩ | ⟨a, given, added, allocations, bytes⟩
  · exact ⟨after, kept, ⟨allocations.trans counted.allocations, bytes.trans counted.bytes⟩,
      Or.inl ⟨failed, rfl⟩⟩
  · exact ⟨after, kept, counted.allocate kept added allocations bytes, Or.inr ⟨a, given, added⟩⟩

/-! Freeing. -/

theorem mem_liveBlocks {u : Nat} :
    (a, u) ∈ liveBlocks blocks ↔ ∃ x, (a, x) ∈ blocks ∧ x.free = false ∧ x.userSize = u := by
  simp [liveBlocks, and_assoc]

theorem HeapList.recordFree (list : HeapList h blocks) (ptr userSize : Nat) :
    HeapList (recordFree h ptr userSize) blocks :=
  ⟨list.head, list.stored, list.linked, list.packed, list.nonNull, list.bound⟩

/-- A block just marked free, its neighbours not yet looked at. -/
structure Freeing (h : Heap) (left : List (Nat × HeapBlock)) (a : Nat) (x : HeapBlock)
    (right : List (Nat × HeapBlock)) : Prop where
  list : HeapList h (left ++ (a, x) :: right)
  each : ∀ b ∈ left ++ (a, x) :: right, BlockSound b.2
  free : x.free = true
  before : Coalesced left
  behind : Coalesced right

theorem Freeing.coalesceNext (freeing : Freeing h left a x right) :
    ∃ y rest, Freeing (coalesceNext h a) left a y rest ∧ StartsLive rest ∧
      liveBlocks rest = liveBlocks right := by
  have list := freeing.list
  have onward := list.onward
  cases right with
  | nil =>
      have stop : ¬ (x.next ≠ 0 ∧ (h.block x.next).free = true) := by simp [onward, first]
      refine ⟨x, [], ?_, by simp [StartsLive], rfl⟩
      rwa [ZurichOS.coalesceNext, list.own, if_neg stop]
  | cons follower rest =>
      obtain ⟨d, y⟩ := follower
      have next : x.next = d := onward
      have stored : h.block d = y := list.stored (d, y) (by simp)
      have nonNull : d ≠ 0 := list.block_nonNull (d, y) (by simp)
      cases free : y.free with
      | false =>
          refine ⟨x, (d, y) :: rest, ?_, by simp [StartsLive, free], rfl⟩
          rwa [ZurichOS.coalesceNext, list.own, next, stored, free, if_neg (by simp)]
      | true =>
          obtain ⟨chain, starts⟩ := (coalesced_cons_free free).mp freeing.behind
          obtain ⟨front_each, own_each, back_each⟩ := each_middle.mp freeing.each
          have merged : coalesceNext h a = absorbBlock h a y := by
            simp only [ZurichOS.coalesceNext, absorbBlock, list.own, next, stored, free, nonNull,
              ne_eq, not_false_eq_true, and_self, if_true, Heap.edit, edit_self]
          refine ⟨{ x with size := x.size + 24 + y.size, next := y.next }, relink a rest,
            ⟨?_, ?_, freeing.free, freeing.before, coalesced_relink.mpr chain⟩,
            startsLive_relink.mpr starts, ?_⟩
          · rw [merged]
            exact list.absorb
          · refine each_middle.mpr ⟨front_each, ⟨own_each.1, ?_⟩, each_relink.mpr ?_⟩
            · intro live
              exact absurd (live.symm.trans freeing.free) (by simp)
            · exact fun b member => back_each b (by simp [member])
          · rw [liveBlocks_relink, liveBlocks_free free]

theorem Freeing.coalescePrev (freeing : Freeing h left a x right) (starts : StartsLive right) :
    ∃ after, HeapInv (coalescePrev h a) after ∧
      liveBlocks after = liveBlocks left ++ liveBlocks right := by
  have list := freeing.list
  have back := list.back
  rcases List.eq_nil_or_concat left with rfl | ⟨front, ⟨p, z⟩, rfl⟩
  · have stop : ¬ (x.prev ≠ 0 ∧ (h.block x.prev).free = true) := by simp [back, last]
    refine ⟨(a, x) :: right, ?_, liveBlocks_free freeing.free right⟩
    rw [ZurichOS.coalescePrev, list.own, if_neg stop]
    exact ⟨list, freeing.each, (coalesced_cons_free freeing.free).mpr ⟨freeing.behind, starts⟩⟩
  · rw [List.concat_eq_append] at *
    have prev : x.prev = p := back.trans (last_append 0 front [(p, z)])
    have stored : h.block p = z := list.stored (p, z) (by simp)
    have nonNull : p ≠ 0 := list.block_nonNull (p, z) (by simp)
    cases free : z.free with
    | false =>
        refine ⟨front ++ [(p, z)] ++ (a, x) :: right, ?_, ?_⟩
        · rw [ZurichOS.coalescePrev, list.own, prev, stored, free, if_neg (by simp)]
          refine ⟨list, freeing.each, (coalesced_free freeing.free).mpr
            ⟨freeing.before, freeing.behind, ?_, starts⟩⟩
          simp [EndsLive, free]
        · rw [liveBlocks_append, liveBlocks_free freeing.free]
    | true =>
        have whole : HeapList h (front ++ (p, z) :: (a, x) :: right) := by simpa using list
        obtain ⟨front_chain, _, ends, _⟩ := (coalesced_free free).mp freeing.before
        have each : ∀ b ∈ front ++ (p, z) :: (a, x) :: right, BlockSound b.2 := by
          simpa using freeing.each
        obtain ⟨front_each, own_each, back_each⟩ := each_middle.mp each
        have merged : coalescePrev h a = absorbBlock h p x := by
          simp only [ZurichOS.coalescePrev, absorbBlock, list.own, prev, stored, free, nonNull,
            ne_eq, not_false_eq_true, and_self, if_true]
        refine ⟨front ++ (p, { z with size := z.size + 24 + x.size, next := x.next }) ::
          relink p right, ⟨?_, ?_, ?_⟩, ?_⟩
        · rw [merged]
          exact whole.absorb
        · refine each_middle.mpr ⟨front_each, ⟨own_each.1, ?_⟩, each_relink.mpr ?_⟩
          · intro live
            exact absurd (live.symm.trans free) (by simp)
          · exact fun b member => back_each b (by simp [member])
        · refine (coalesced_free ?_).mpr
            ⟨front_chain, coalesced_relink.mpr freeing.behind, ends, startsLive_relink.mpr starts⟩
          exact free
        · rw [liveBlocks_append, liveBlocks_append, liveBlocks_free free, liveBlocks_free free,
            liveBlocks_relink]
          simp [liveBlocks]

theorem coalesceNext_counters (h : Heap) (block : Nat) :
    (coalesceNext h block).currentAllocations = h.currentAllocations ∧
      (coalesceNext h block).bytesAllocated = h.bytesAllocated := by
  unfold coalesceNext
  dsimp only
  split <;> exact ⟨rfl, rfl⟩

theorem coalescePrev_counters (h : Heap) (block : Nat) :
    (coalescePrev h block).currentAllocations = h.currentAllocations ∧
      (coalescePrev h block).bytesAllocated = h.bytesAllocated := by
  unfold coalescePrev
  dsimp only
  split <;> exact ⟨rfl, rfl⟩

/-- Freeing a live block takes it off the live blocks and coalesces around it. -/
theorem HeapInv.kfree (inv : HeapInv h blocks) {u : Nat} (live : (a, u) ∈ liveBlocks blocks) :
    ∃ after, HeapInv (ZurichOS.kfree h (a + 24)) after ∧
      (liveBlocks blocks).Perm ((a, u) :: liveBlocks after) ∧
      (ZurichOS.kfree h (a + 24)).currentAllocations = sub32 h.currentAllocations 1 ∧
      (ZurichOS.kfree h (a + 24)).bytesAllocated = sub32 h.bytesAllocated u := by
  obtain ⟨x, member, taken, rfl⟩ := mem_liveBlocks.mp live
  obtain ⟨left, right, rfl⟩ := List.append_of_mem member
  have range := inv.range
  have top := inv.bound
  have own := inv.own
  obtain ⟨front_each, own_each, back_each⟩ := each_middle.mp inv.each
  obtain ⟨before, behind⟩ := (coalesced_live taken).mp inv.coalesced
  have header : sub32 (a + 24) 24 = a := by
    rw [sub32_eq (by omega) (by omega)]
    omega
  have marked : Freeing
      ((recordFree h (a + 24) x.userSize).edit a fun b => { b with free := true })
      left a { x with free := true } right := by
    refine ⟨?_, each_middle.mpr ⟨front_each, ⟨own_each.1, by simp⟩, back_each⟩, rfl, before,
      behind⟩
    exact (inv.toHeapList.recordFree (a + 24) x.userSize).edit (fun b => { b with free := true })
      rfl rfl rfl
  obtain ⟨y, rest, next, starts, same⟩ := marked.coalesceNext
  obtain ⟨after, kept, final⟩ := next.coalescePrev starts
  have body : ZurichOS.kfree h (a + 24) = coalescePrev (coalesceNext
      ((recordFree h (a + 24) x.userSize).edit a fun b => { b with free := true }) a) a := by
    simp only [ZurichOS.kfree, header, own, own_each.1]
    simp
  rw [body]
  have dropped : (liveBlocks (left ++ (a, x) :: right)).Perm
      ((a, x.userSize) :: liveBlocks after) := by
    rw [final, same, liveBlocks_append, liveBlocks_live taken]
    exact List.perm_middle
  have coalesced := coalescePrev_counters (coalesceNext
    ((recordFree h (a + 24) x.userSize).edit a fun b => { b with free := true }) a) a
  rw [(coalesceNext_counters _ a).1, (coalesceNext_counters _ a).2] at coalesced
  exact ⟨after, kept, dropped, coalesced.1, coalesced.2⟩

theorem kfree_live (inv : HeapInv h blocks) (counted : Counted h blocks) {u : Nat}
    (live : (a, u) ∈ liveBlocks blocks) :
    ∃ after, HeapInv (kfree h (a + 24)) after ∧ Counted (kfree h (a + 24)) after ∧
      (liveBlocks blocks).Perm ((a, u) :: liveBlocks after) := by
  obtain ⟨after, kept, dropped, allocations, bytes⟩ := inv.kfree live
  exact ⟨after, kept, counted.release inv dropped allocations bytes, dropped⟩

/-! Runs. -/

theorem HeapInv.sound (inv : HeapInv h blocks) (counted : Counted h blocks) :
    HeapSound h blocks :=
  ⟨inv.head, inv.stored, inv.linked, inv.packed.ordered, inv.packed.disjoint, inv.packed.inside,
    fun b member => (inv.each b member).2, inv.coalesced, counted.allocations, counted.bytes⟩

structure HeapRunInv (r : HeapRun) (blocks : List (Nat × HeapBlock)) : Prop where
  inv : HeapInv r.heap blocks
  counted : Counted r.heap blocks
  live : r.live.Perm ((liveBlocks blocks).map fun b => b.1 + 24)

/-- The requests the 32-bit arithmetic of `kmalloc` has room for. -/
def RequestFits : HeapRun → HeapCall → Prop
  | _, .kmalloc request => request ≤ 0xFFFFFFDC
  | _, .kfree _ => True

instance (r : HeapRun) : (call : HeapCall) → Decidable (RequestFits r call)
  | .kmalloc _ => inferInstanceAs (Decidable (_ ≤ _))
  | .kfree _ => inferInstanceAs (Decidable True)

theorem heapInit_inv {mm : Mm} {start size : Nat} {r : HeapRun} (nonNull : alignUp start 16 ≠ 0)
    (initial : HeapStart mm start size r) : HeapRunInv r [] := by
  obtain ⟨block, guard, rfl⟩ := initial
  have aligned := alignUp_16 start
  refine ⟨⟨⟨rfl, by simp [Stored], trivial, Nat.le_refl _, ?_, ?_⟩, by simp, List.isChain_nil⟩,
    ⟨rfl, rfl⟩, List.Perm.refl _⟩
  · show 16 ≤ alignUp start 16
    omega
  · show alignUp start 16 < 4294967296
    omega

theorem HeapRunInv.step {r after : HeapRun} {call : HeapCall} {blocks : List (Nat × HeapBlock)}
    (sound : HeapRunInv r blocks) (stepped : Restricted RequestFits HeapStep r call after) :
    ∃ now, HeapRunInv after now := by
  obtain ⟨fits, allowed, rfl⟩ := stepped
  cases call with
  | kmalloc request =>
      obtain ⟨now, inv, counted, outcome⟩ :=
        kmalloc_cases sound.inv sound.counted fits allowed.2
      refine ⟨now, inv, counted, ?_⟩
      rcases outcome with ⟨failed, rfl⟩ | ⟨a, given, added⟩
      · simpa [HeapRun.call, failed] using sound.live
      · have nonNull : (kmalloc r.heap request).1 ≠ 0 := by omega
        have listed := (added.map fun b : Nat × Nat => b.1 + 24).symm
        simp only [HeapRun.call, if_neg nonNull]
        rw [given]
        exact (sound.live.cons (a + 24)).trans listed
  | kfree ptr =>
      obtain ⟨⟨a, u⟩, live, rfl⟩ := List.mem_map.mp (sound.live.mem_iff.mp allowed)
      obtain ⟨now, inv, counted, dropped⟩ := kfree_live sound.inv sound.counted live
      refine ⟨now, inv, counted, ?_⟩
      have left :=
        (sound.live.trans (dropped.map fun b : Nat × Nat => b.1 + 24)).erase (a + 24)
      simpa [HeapRun.call] using left

/-- Every run of requests that fit keeps the block list sound. -/
theorem heap_run_sound (mm : Mm) (start size : Nat) (nonNull : alignUp start 16 ≠ 0)
    {r : HeapRun}
    (reached : Reachable (HeapStart mm start size) (Restricted RequestFits HeapStep) r) :
    ∃ blocks, HeapSound r.heap blocks := by
  have invariant : ∃ blocks, HeapRunInv r blocks := by
    refine reached.invariant (fun r => ∃ blocks, HeapRunInv r blocks) ?_ ?_
    · exact fun r initial => ⟨[], heapInit_inv nonNull initial⟩
    · exact fun r call after ⟨blocks, sound⟩ stepped => sound.step stepped
  obtain ⟨blocks, sound⟩ := invariant
  exact ⟨blocks, sound.inv.sound sound.counted⟩

def smallHeap : HeapRun :=
  ⟨heapInit (Heap.zero (bootMm (pmmInit ⟨1, 64⟩ 0x100000) 5 6)
    (fun _ => ⟨0, 0, 0, 0, 0, false⟩) fun _ => 0) 0xD0000000 0x800000, []⟩

theorem smallHeap_start : HeapStart (bootMm (pmmInit ⟨1, 64⟩ 0x100000) 5 6) 0xD0000000 0x800000
    smallHeap :=
  ⟨_, _, rfl⟩

theorem heapCall_reachable {initial : HeapRun → Prop} {r : HeapRun} (call : HeapCall)
    (reached : Reachable initial (Restricted RequestFits HeapStep) r)
    (fits : RequestFits r call) (allowed : r.Allowed call) :
    Reachable initial (Restricted RequestFits HeapStep) (r.call call) :=
  reached.next ⟨fits, allowed, rfl⟩

theorem heap_run_sound_small :
    ∃ blocks, HeapSound
      (((smallHeap.call (.kmalloc 100)).call (.kmalloc 40)).call (.kfree 0xD0000018)).heap
      blocks := by
  refine heap_run_sound (bootMm (pmmInit ⟨1, 64⟩ 0x100000) 5 6) 0xD0000000 0x800000 (by decide) ?_
  refine heapCall_reachable _ (heapCall_reachable _ (heapCall_reachable _
    (.start smallHeap_start) ?_ ?_) ?_ ?_) ?_ ?_
  all_goals decide

/-- A request near `2 ^ 32` wraps to the smallest block: 16 bytes, handed out as almost
four gigabytes. -/
theorem kmalloc_wrapped_request :
    let after := smallHeap.call (.kmalloc 0xFFFFFFF0)
    smallHeap.Allowed (.kmalloc 0xFFFFFFF0) ∧ after.heap.heapEnd ≤ after.heap.heapMax ∧
      vmmIsMapped after.heap.mm 0xD0000000 = true ∧ after.live = [0xD0000018] ∧
      ¬ ∃ blocks, HeapSound after.heap blocks := by
  refine ⟨by decide, by decide, by decide, by decide, ?_⟩
  rintro ⟨blocks, sound⟩
  have head := sound.head
  cases blocks with
  | nil => exact absurd head (by decide)
  | cons b rest =>
      obtain ⟨own, _⟩ := (stored_cons _ _ _).mp sound.stored
      have room := sound.guarded b (by simp)
      rw [← own, ← show _ = b.1 from head] at room
      exact absurd room (by decide)

end ZurichOS
