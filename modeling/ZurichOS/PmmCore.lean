import ZurichOS.Words
import ZurichOS.PackedBitmap

/-!
The physical frame allocator of `kernel/mm/pmm.c`: one bit a frame, packed in
32-bit words, and a counter of used frames kept beside it.
-/

namespace ZurichOS

open Words

structure MultibootInfo where
  flags : Nat
  memUpper : Nat

structure Pmm where
  bitmap : Nat → BitVec 32
  bitmapSize : Nat
  totalFrames : Nat
  usedFrames : Nat
  totalMemory : Nat

def Pmm.bitmapTest (pmm : Pmm) (frame : Nat) : Bool := PackedBitmap.test pmm.bitmap frame

def Pmm.bitmapSet (pmm : Pmm) (frame : Nat) : Pmm :=
  { pmm with
    bitmap := PackedBitmap.set pmm.bitmap frame
    usedFrames := u32 (pmm.usedFrames + 1) }

def Pmm.bitmapClear (pmm : Pmm) (frame : Nat) : Pmm :=
  { pmm with
    bitmap := PackedBitmap.clear pmm.bitmap frame
    usedFrames := u32 (pmm.usedFrames + 4294967295) }

def pmmMarkUsed (pmm : Pmm) (addr : Nat) : Pmm :=
  let frame := addr / 4096
  if pmm.totalFrames ≤ frame then pmm
  else if pmm.bitmapTest frame then pmm
  else pmm.bitmapSet frame

def pmmFreeFrame (pmm : Pmm) (addr : Nat) : Pmm :=
  let frame := addr / 4096
  if pmm.totalFrames ≤ frame then pmm
  else if pmm.bitmapTest frame then pmm.bitmapClear frame
  else pmm

/-- The loop over the bits of word `index`. `none` is a loop that ran to its end,
`some none` its `return 0`, `some (some frame)` a clear bit that was found. -/
def pmmScanWord (pmm : Pmm) (index : Nat) : Option (Option Nat) :=
  (List.range 32).findSome? fun offset =>
    let frame := u32 (index * 32 + offset)
    if pmm.totalFrames ≤ frame then some none
    else if pmm.bitmapTest frame then none
    else some (some frame)

def pmmScan (pmm : Pmm) : Option (Option Nat) :=
  (List.range pmm.bitmapSize).findSome? fun index =>
    if pmm.bitmap index = BitVec.allOnes 32 then none else pmmScanWord pmm index

/-- The physical address of a frame and the allocator after the call; 0 is failure. -/
def pmmAllocFrame (pmm : Pmm) : Nat × Pmm :=
  if pmm.totalFrames ≤ pmm.usedFrames then (0, pmm)
  else match pmmScan pmm with
    | some (some frame) => (u32 (frame * 4096), pmm.bitmapSet frame)
    | _ => (0, pmm)

def pmmInit (mboot : MultibootInfo) (kernelEndPhys : Nat) : Pmm :=
  let detected :=
    if mboot.flags &&& 1 ≠ 0 then u32 (u32 (mboot.memUpper + 1024) * 1024)
    else 256 * 1024 * 1024
  let totalMemory := if detected = 0 then 256 * 1024 * 1024 else detected
  let totalFrames := totalMemory / 4096
  let bitmapSize := (totalFrames + 31) / 32
  let reserved : Pmm :=
    { bitmap := fun index => if index < bitmapSize then BitVec.allOnes 32 else 0#32
      bitmapSize, totalFrames, usedFrames := totalFrames, totalMemory }
  -- The first megabyte stays reserved.
  let released := (List.range' 256 (totalFrames - 256)).foldl Pmm.bitmapClear reserved
  let kernelEnd := alignUp (u32 (kernelEndPhys + bitmapSize * 4)) 4096
  (pageLoop 0x100000 kernelEnd).foldl pmmMarkUsed released

inductive PmmCall where
  | allocFrame
  | freeFrame (addr : Nat)
  | markUsed (addr : Nat)

def Pmm.call (pmm : Pmm) : PmmCall → Pmm
  | .allocFrame => (pmmAllocFrame pmm).2
  | .freeFrame addr => pmmFreeFrame pmm addr
  | .markUsed addr => pmmMarkUsed pmm addr

def Pmm.run (pmm : Pmm) (calls : List PmmCall) : Pmm := calls.foldl Pmm.call pmm

def pmmGetTotalMemory (pmm : Pmm) : Nat := pmm.totalMemory

def pmmGetUsedMemory (pmm : Pmm) : Nat := u32 (pmm.usedFrames * 4096)

def pmmGetFreeMemory (pmm : Pmm) : Nat :=
  u32 (u32 (pmm.totalFrames + 4294967296 - pmm.usedFrames) * 4096)

end ZurichOS
