import ZurichOS.Heap

/-!
`kmalloc_aligned`: the aligned area and the pointer hidden below it lie in the block that
`kmalloc` hands out, before its guard word, and `kfree_aligned` gives that block back.
-/

namespace ZurichOS

open Words DoublyLinked

abbrev pointerSize : Nat := 4

/-- The heap, and the pointers that `kmalloc_aligned` keeps in the payloads. -/
structure AlignedHeap where
  heap : Heap
  slot : Nat → Nat

/-- `ALIGN_UP` with a computed alignment. -/
def alignUpTo (addr alignment : Nat) : Nat :=
  u32 (addr + sub32 alignment 1) &&& (4294967295 - sub32 alignment 1)

def kmallocAligned (h : AlignedHeap) (size alignment : Nat) : Nat × AlignedHeap :=
  let total := u32 (size + alignment + pointerSize)
  let allocated := kmalloc h.heap total
  if allocated.1 = 0 then (0, { h with heap := allocated.2 })
  else
    let aligned := alignUpTo (u32 (allocated.1 + pointerSize)) alignment
    (aligned,
      { heap := allocated.2
        slot := fun address =>
          if address = sub32 aligned pointerSize then allocated.1 else h.slot address })

def kfreeAligned (h : AlignedHeap) (ptr : Nat) : AlignedHeap :=
  if ptr = 0 then h
  else { h with heap := kfree h.heap (h.slot (sub32 ptr pointerSize)) }

theorem alignUpTo_pow {addr bits : Nat} (bound : bits < 32)
    (word : addr + 2 ^ bits ≤ 4294967296) :
    addr ≤ alignUpTo addr (2 ^ bits) ∧ alignUpTo addr (2 ^ bits) < addr + 2 ^ bits ∧
      2 ^ bits ∣ alignUpTo addr (2 ^ bits) := by
  have positive : 0 < 2 ^ bits := Nat.two_pow_pos bits
  have small : 2 ^ bits < 4294967296 := Nat.pow_lt_pow_right (by decide) bound
  have value : alignUpTo addr (2 ^ bits) = (addr + (2 ^ bits - 1)) / 2 ^ bits * 2 ^ bits := by
    rw [alignUpTo, sub32_eq positive small, u32_eq_of_lt (by omega),
      and_highMask bits (by omega) (by omega)]
  have split := Nat.div_add_mod (addr + (2 ^ bits - 1)) (2 ^ bits)
  have below := Nat.mod_lt (addr + (2 ^ bits - 1)) positive
  rw [Nat.mul_comm] at split
  rw [value]
  exact ⟨by omega, by omega, Nat.dvd_mul_left _ _⟩

variable {blocks : List (Nat × HeapBlock)}

/-- The guard word stands right behind the bytes that were asked for. -/
theorem kmalloc_guard {h : Heap} (inv : HeapInv h blocks) {request : Nat}
    (given : (kmalloc h request).1 ≠ 0) :
    (kmalloc h request).2.guard (u32 ((kmalloc h request).1 + request)) = heapGuard := by
  have outcome := inv.kmalloc_outcome request
  generalize kmalloc h request = result at outcome given ⊢
  cases outcome with
  | nothing _ | refused _ _ _ | dry _ _ _ _ => exact absurd rfl given
  | taken _ _ _ _ _ => exact if_pos rfl
  | grown _ _ _ _ => exact if_pos rfl

/-- An aligned area of `size` bytes at `ptr`, its slot included, in the block `a`, which was
not live before. -/
structure AlignedIn (before after : List (Nat × HeapBlock)) (guard : Nat → Nat)
    (ptr size alignment a : Nat) (x : HeapBlock) : Prop where
  aligned : alignment ∣ ptr
  block : (a, x) ∈ after
  live : x.free = false
  fresh : ∀ y, (a, y) ∈ before → y.free = true
  slot : a + headerSize ≤ ptr - pointerSize ∧ pointerSize ≤ ptr
  area : ptr + size ≤ a + headerSize + x.userSize
  guarded : guard (a + headerSize + x.userSize) = heapGuard
  inside : x.userSize + guardSize ≤ x.size

theorem HeapList.live_nodup {h : Heap} (list : HeapList h blocks) :
    ((liveBlocks blocks).map Prod.fst).Nodup := by
  have addresses : (liveBlocks blocks).map Prod.fst =
      (blocks.filter fun b => !b.2.free).map Prod.fst := by
    simp [liveBlocks, Function.comp_def]
  rw [addresses]
  exact list.packed.distinct.sublist (List.filter_sublist.map _)

theorem added_block {h : Heap} {after : List (Nat × HeapBlock)} {a request : Nat}
    (kept : HeapInv h after) (added : (liveBlocks after).Perm ((a, request) :: liveBlocks blocks)) :
    (∃ x, (a, x) ∈ after ∧ x.free = false ∧ x.userSize = request ∧
        request + guardSize ≤ x.size ∧ a + headerSize + x.size ≤ h.heapEnd) ∧
      ∀ y, (a, y) ∈ blocks → y.free = true := by
  constructor
  · obtain ⟨x, member, live, rfl⟩ := mem_liveBlocks.mp (added.mem_iff.mpr List.mem_cons_self)
    exact ⟨x, member, live, rfl, (kept.each _ member).2 live, (kept.packed.inside _ member).2⟩
  · intro y member
    by_contra used
    have live : y.free = false := Bool.eq_false_iff.mpr used
    have once := (added.map Prod.fst).nodup_iff.mp kept.live_nodup
    refine (List.nodup_cons.mp once).1 (List.mem_map.mpr ⟨(a, y.userSize), ?_, rfl⟩)
    exact mem_liveBlocks.mpr ⟨y, member, live, rfl⟩

theorem kfreeAligned_slot (h : AlignedHeap) {ptr block : Nat} (above : pointerSize ≤ ptr)
    (word : ptr < 4294967296) (slot : h.slot (ptr - pointerSize) = block) :
    (kfreeAligned h ptr).heap = kfree h.heap block := by
  have nonNull : ptr ≠ 0 := by
    simp only [pointerSize] at above
    omega
  rw [kfreeAligned, if_neg nonNull, sub32_eq above word, slot]

/-- An aligned allocation that does not wrap: where its area and its hidden pointer lie, and
that freeing it, in whatever state with that pointer intact, frees its block. -/
theorem kmalloc_aligned_sound {h : AlignedHeap} (inv : HeapInv h.heap blocks)
    {size alignment bits : Nat} (power : alignment = 2 ^ bits) (least : 4 ≤ alignment)
    (small : size + alignment + pointerSize ≤ 0xFFFFFFDC)
    (stays : ¬ h.heap.endWraps (size + alignment + pointerSize))
    (given : (kmallocAligned h size alignment).1 ≠ 0) :
    let ptr := (kmallocAligned h size alignment).1
    let allocated := (kmallocAligned h size alignment).2
    ∃ after a x, HeapInv allocated.heap after ∧
      AlignedIn blocks after allocated.heap.guard ptr size alignment a x ∧
      ∀ (later : AlignedHeap) list, HeapInv later.heap list →
        (a, x.userSize) ∈ liveBlocks list →
        later.slot (ptr - pointerSize) = allocated.slot (ptr - pointerSize) →
        ∃ now, HeapInv (kfreeAligned later ptr).heap now ∧
          (liveBlocks list).Perm ((a, x.userSize) :: liveBlocks now) := by
  generalize sum : size + alignment + pointerSize = total at small stays
  simp only [pointerSize] at sum
  have word : u32 (size + alignment + 4) = total := by
    rw [sum]
    exact u32_eq_of_lt (by omega)
  have few : bits < 32 := by
    by_contra many
    have huge : 2 ^ 32 ≤ 2 ^ bits := Nat.pow_le_pow_right (by decide) (Nat.le_of_not_lt many)
    omega
  have guarded := @kmalloc_guard _ _ inv total
  obtain ⟨after, kept, outcome⟩ := inv.kmalloc small stays
  unfold kmallocAligned at given ⊢
  simp only [pointerSize, word] at given ⊢
  rcases outcome with ⟨failed, _⟩ | ⟨a, ptr, added, _⟩
  · rw [if_pos failed] at given
    exact absurd rfl given
  have nonNull : (kmalloc h.heap total).1 ≠ 0 := by omega
  obtain ⟨⟨x, member, live, rfl, room, stop⟩, fresh⟩ := added_block kept added
  have top := kept.bound
  simp only [headerSize, guardSize] at room stop
  replace guarded := guarded nonNull
  rw [ptr, u32_eq_of_lt (by omega)] at guarded
  rw [if_neg nonNull, ptr, u32_eq_of_lt (by omega), power]
  rw [power] at sum
  obtain ⟨low, high, aligned⟩ := @alignUpTo_pow (a + 24 + 4) bits few (by omega)
  generalize alignUpTo (a + 24 + 4) (2 ^ bits) = start at low high aligned ⊢
  refine ⟨after, a, x, kept, ⟨aligned, member, live, fresh, ⟨?_, ?_⟩, ?_, guarded, room⟩, ?_⟩
  · show a + 24 ≤ start - 4
    omega
  · show 4 ≤ start
    omega
  · show start + size ≤ a + 24 + x.userSize
    omega
  · intro later list inv' taken slot
    dsimp only at slot
    rw [sub32_eq (by omega) (by omega), if_pos rfl] at slot
    rw [kfreeAligned_slot later (show 4 ≤ start by omega) (by omega) slot]
    obtain ⟨now, keeps, dropped, _⟩ := inv'.kfree taken
    exact ⟨now, keeps, dropped⟩

theorem kmalloc_aligned_sound_small :
    let h : AlignedHeap := ⟨smallHeap.heap, fun _ => 0⟩
    (kmallocAligned h 16 4096).1 = 0xD0001000 ∧
      ∃ after a x, AlignedIn [] after (kmallocAligned h 16 4096).2.heap.guard 0xD0001000 16 4096 a x := by
  intro h
  have given : (kmallocAligned h 16 4096).1 = 0xD0001000 := by decide
  have inv : HeapInv h.heap [] := (heapInit_inv (by decide) smallHeap_start).inv
  obtain ⟨after, a, x, _, area, _⟩ := @kmalloc_aligned_sound _ h inv 16 4096 12 rfl (by decide)
    (by decide) (by decide) (by rw [given]; decide)
  rw [given] at area
  exact ⟨given, after, a, x, area⟩

end ZurichOS
