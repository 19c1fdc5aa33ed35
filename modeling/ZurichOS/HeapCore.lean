import ZurichOS.DoublyLinked
import ZurichOS.VmmCore

/-!
The kernel heap of `kernel/mm/heap.c`: block headers threaded through the heap's
memory, first fit with splitting, page-granular growth and two-sided coalescing.
Headers and guard words are stores indexed by address; growth takes frames from
the allocator and maps them.
-/

namespace ZurichOS

open Words DoublyLinked

structure HeapBlock where
  size : Nat
  userSize : Nat
  magic : Nat
  next : Nat
  prev : Nat
  free : Bool
  deriving DecidableEq

instance : Links HeapBlock where
  prev := HeapBlock.prev
  next := HeapBlock.next
  withPrev block address := { block with prev := address }
  prev_withPrev _ _ := rfl
  next_withPrev _ _ := rfl

abbrev heapMagic : Nat := 0xDEADBEEF
abbrev heapGuard : Nat := 0xCAFEBABE
abbrev heapMinSize : Nat := 16
abbrev headerSize : Nat := 24
abbrev guardSize : Nat := 4

structure Heap where
  totalAllocations : Nat
  totalFrees : Nat
  currentAllocations : Nat
  bytesAllocated : Nat
  peakAllocations : Nat
  peakBytes : Nat
  heapStart : Nat
  heapEnd : Nat
  heapMax : Nat
  freeList : Nat
  block : Nat → HeapBlock
  guard : Nat → Nat
  mm : Mm
  serial : List String

/-- The allocator's variables before `heap_init`, over whatever the memory behind it
holds. -/
def Heap.zero (mm : Mm) (block : Nat → HeapBlock) (guard : Nat → Nat) : Heap :=
  { totalAllocations := 0, totalFrees := 0, currentAllocations := 0, bytesAllocated := 0
    peakAllocations := 0, peakBytes := 0, heapStart := 0, heapEnd := 0, heapMax := 0
    freeList := 0, block, guard, mm, serial := [] }

def heapInit (h : Heap) (start size : Nat) : Heap :=
  let heapStart := alignUp start 16
  { h with heapStart, heapEnd := heapStart, heapMax := u32 (heapStart + size), freeList := 0 }

/-- The loop of `heap_expand`: a frame for every page, or `return -1`. -/
def heapMapPages : List Nat → Mm → Bool × Mm
  | [], mm => (true, mm)
  | addr :: rest, mm =>
      let allocated := pmmAllocFrame mm.pmm
      let mm := { mm with pmm := allocated.2 }
      if allocated.1 = 0 then (false, mm)
      else heapMapPages rest (vmmMapPage mm addr allocated.1 pageKernel)

def heapExpand (h : Heap) (size : Nat) : Int × Heap :=
  let newEnd := alignUp (h.heapEnd + size) 4096
  if h.heapMax < newEnd then (-1, h)
  else
    let mapped := heapMapPages (pageLoop h.heapEnd newEnd) h.mm
    if mapped.1 then (0, { h with mm := mapped.2, heapEnd := newEnd })
    else (-1, { h with mm := mapped.2 })

def Heap.edit (h : Heap) (address : Nat) (change : HeapBlock → HeapBlock) : Heap :=
  { h with block := DoublyLinked.edit h.block address change }

def Heap.relink (h : Heap) (pointer address : Nat) : Heap :=
  { h with block := relinkStore h.block pointer address }

def setGuard (h : Heap) (ptr userSize : Nat) : Heap :=
  { h with
    guard := fun address => if address = u32 (ptr + userSize) then heapGuard else h.guard address }

def checkGuard (h : Heap) (ptr userSize : Nat) : Bool :=
  h.guard (u32 (ptr + userSize)) == heapGuard

/-- `ALIGN_UP(size + GUARD_SIZE, 16)`, at least `HEAP_MIN_SIZE`. -/
def allocationSize (request : Nat) : Nat :=
  let size := alignUp (request + guardSize) 16
  if size < heapMinSize then heapMinSize else size

def splitBlock (h : Heap) (block size : Nat) : Heap :=
  let old := h.block block
  let newBlock := u32 (block + headerSize + size)
  let h := h.edit newBlock fun fresh =>
    { fresh with
      size := sub32 (sub32 old.size size) headerSize, magic := heapMagic, free := true
      next := old.next, prev := block }
  let h := h.relink old.next newBlock
  h.edit block fun b => { b with next := newBlock, size }

def recordAllocation (h : Heap) (userSize : Nat) : Heap :=
  let current := u32 (h.currentAllocations + 1)
  let bytes := u32 (h.bytesAllocated + userSize)
  { h with
    totalAllocations := u32 (h.totalAllocations + 1)
    currentAllocations := current
    bytesAllocated := bytes
    peakAllocations := if h.peakAllocations < current then current else h.peakAllocations
    peakBytes := if h.peakBytes < bytes then bytes else h.peakBytes }

def takeBlock (h : Heap) (block size userSize : Nat) : Nat × Heap :=
  let h :=
    if u32 (size + headerSize + heapMinSize) ≤ (h.block block).size then splitBlock h block size
    else h
  let h := h.edit block fun b => { b with free := false, userSize }
  let ptr := u32 (block + headerSize)
  (ptr, recordAllocation (setGuard h ptr userSize) userSize)

/-- The rounds the list walks are given; the list is never that long. -/
def Heap.fuel (h : Heap) : Nat := h.heapEnd + 1

def firstFit (h : Heap) (size : Nat) : Nat :=
  searchFrom h.block (fun b => b.free && decide (size ≤ b.size)) h.fuel h.freeList

def appendBlock (h : Heap) (block size userSize : Nat) : Nat × Heap :=
  let h := h.edit block fun _ =>
    { size, userSize, magic := heapMagic, next := 0, prev := 0, free := false }
  let h :=
    if h.freeList = 0 then { h with freeList := block }
    else
      let last := lastFrom h.block h.fuel h.freeList
      let h := h.edit last fun b => { b with next := block }
      h.edit block fun b => { b with prev := last }
  let ptr := u32 (block + headerSize)
  (ptr, recordAllocation (setGuard h ptr userSize) userSize)

def kmalloc (h : Heap) (request : Nat) : Nat × Heap :=
  if request = 0 then (0, h)
  else
    let size := allocationSize request
    let found := firstFit h size
    if found ≠ 0 then takeBlock h found size request
    else
      let expanded := heapExpand h (u32 (headerSize + size))
      if expanded.1 ≠ 0 then (0, expanded.2)
      else appendBlock expanded.2 h.heapEnd size request

def coalesceNext (h : Heap) (block : Nat) : Heap :=
  let next := (h.block block).next
  if next ≠ 0 ∧ (h.block next).free = true then
    let follower := h.block next
    let h := h.edit block fun b =>
      { b with size := u32 (b.size + u32 (headerSize + follower.size)), next := follower.next }
    h.relink (h.block block).next block
  else h

def coalescePrev (h : Heap) (block : Nat) : Heap :=
  let b := h.block block
  if b.prev ≠ 0 ∧ (h.block b.prev).free = true then
    let h := h.edit b.prev fun p =>
      { p with size := u32 (p.size + u32 (headerSize + b.size)), next := b.next }
    h.relink b.next b.prev
  else h

def recordFree (h : Heap) (ptr userSize : Nat) : Heap :=
  { h with
    serial :=
      if checkGuard h ptr userSize then h.serial
      else h.serial ++ ["[HEAP] WARNING: Buffer overflow detected on free!\n"]
    totalFrees := u32 (h.totalFrees + 1)
    currentAllocations := sub32 h.currentAllocations 1
    bytesAllocated := sub32 h.bytesAllocated userSize }

def kfree (h : Heap) (ptr : Nat) : Heap :=
  if ptr = 0 then h
  else
    let block := sub32 ptr headerSize
    let b := h.block block
    if b.magic ≠ heapMagic then h
    else
      let h := (recordFree h ptr b.userSize).edit block fun b => { b with free := true }
      coalescePrev (coalesceNext h block) block

def Heap.endWraps (h : Heap) (request : Nat) : Prop :=
  firstFit h (allocationSize request) = 0 ∧
    4294967296 ≤ h.heapEnd + headerSize + allocationSize request + 4095

instance (h : Heap) (request : Nat) : Decidable (h.endWraps request) :=
  inferInstanceAs (Decidable (_ ∧ _))

inductive HeapCall where
  | kmalloc (request : Nat)
  | kfree (ptr : Nat)

/-- A heap in use, with the pointers given out by `kmalloc` and not freed since. -/
structure HeapRun where
  heap : Heap
  live : List Nat

def HeapRun.call (r : HeapRun) : HeapCall → HeapRun
  | .kmalloc request =>
      let result := kmalloc r.heap request
      ⟨result.2, if result.1 = 0 then r.live else result.1 :: r.live⟩
  | .kfree ptr => ⟨kfree r.heap ptr, r.live.erase ptr⟩

/-- Requests are words that do not wrap `heap_end`, and only live pointers are freed. -/
def HeapRun.Allowed (r : HeapRun) : HeapCall → Prop
  | .kmalloc request => request < 4294967296 ∧ ¬ r.heap.endWraps request
  | .kfree ptr => ptr ∈ r.live

instance (r : HeapRun) : (call : HeapCall) → Decidable (r.Allowed call)
  | .kmalloc _ => inferInstanceAs (Decidable (_ ∧ _))
  | .kfree _ => inferInstanceAs (Decidable (_ ∈ _))

def HeapStep (r : HeapRun) (call : HeapCall) (after : HeapRun) : Prop :=
  r.Allowed call ∧ after = r.call call

/-- `heap_init` on a machine whose allocator was not used before. -/
def HeapStart (mm : Mm) (start size : Nat) (r : HeapRun) : Prop :=
  ∃ block guard, r = ⟨heapInit (Heap.zero mm block guard) start size, []⟩

end ZurichOS
