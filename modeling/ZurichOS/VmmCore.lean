import ZurichOS.PmmCore

/-!
Page tables as `kernel/mm/vmm.c` edits them.  Physical memory is a family of
frames of 1024 words.  The kernel reaches the directory and the tables through
the recursive directory entry, so every pointer into the window is resolved by
the walk the processor makes.
-/

namespace ZurichOS

open Words

/-- The physical allocator, the directory the processor uses, and physical memory. -/
structure Mm where
  pmm : Pmm
  cr3 : Nat
  phys : Nat → Nat → Nat

abbrev pagePresent : Nat := 0x001
abbrev pageWrite : Nat := 0x002
abbrev pageUser : Nat := 0x004
abbrev pageKernel : Nat := 0x003

abbrev recursivePdIndex : Nat := 1023
abbrev recursivePdAddr : Nat := 0xFFFFF000
abbrev recursivePtBase : Nat := 0xFFC00000

def pdIndex (virt : Nat) : Nat := (virt >>> 22) &&& 0x3FF

def ptIndex (virt : Nat) : Nat := (virt >>> 12) &&& 0x3FF

def frameOf (entry : Nat) : Nat := (entry &&& 0xFFFFF000) / 4096

def Mm.pde (m : Mm) (index : Nat) : Nat := m.phys (m.cr3 / 4096) index

/-- The frame the processor's two-level walk finds for a virtual address. -/
def Mm.mmuFrame (m : Mm) (virt : Nat) : Nat :=
  frameOf (m.phys (frameOf (m.pde (pdIndex virt))) (ptIndex virt))

def Mm.getPt (m : Mm) (index : Nat) : Nat := m.mmuFrame (recursivePtBase + index * 4096)

def Mm.getPd (m : Mm) : Nat := m.mmuFrame recursivePdAddr

def Mm.write (m : Mm) (frame index value : Nat) : Mm :=
  { m with
    phys := fun f i => if f = frame ∧ i = index then value else m.phys f i }

def Mm.clearTable (m : Mm) (frame : Nat) : Mm :=
  { m with phys := fun f i => if f = frame ∧ i < 1024 then 0 else m.phys f i }

def tableEntry (phys flags : Nat) : Nat :=
  (phys &&& 0xFFFFF000) ||| (flags &&& 0xFFF) ||| pagePresent

def vmmInit (m : Mm) : Mm :=
  m.write (m.cr3 / 4096) recursivePdIndex (m.cr3 ||| pagePresent ||| pageWrite)

def vmmMapPage (m : Mm) (virt phys flags : Nat) : Mm :=
  let pd := m.getPd
  if m.phys pd (pdIndex virt) &&& pagePresent = 0 then
    let allocated := pmmAllocFrame m.pmm
    let ptPhys := allocated.1
    let m := { m with pmm := allocated.2 }
    if ptPhys = 0 then m
    else
      let m := m.write pd (pdIndex virt)
        (ptPhys ||| pagePresent ||| pageWrite ||| (flags &&& pageUser))
      let m := m.clearTable (m.getPt (pdIndex virt))
      m.write (m.getPt (pdIndex virt)) (ptIndex virt) (tableEntry phys flags)
  else
    let m :=
      if flags &&& pageUser ≠ 0 then
        m.write pd (pdIndex virt) (m.phys pd (pdIndex virt) ||| pageUser)
      else m
    m.write (m.getPt (pdIndex virt)) (ptIndex virt) (tableEntry phys flags)

def vmmUnmapPage (m : Mm) (virt : Nat) : Mm :=
  if m.phys m.getPd (pdIndex virt) &&& pagePresent = 0 then m
  else m.write (m.getPt (pdIndex virt)) (ptIndex virt) 0

def vmmGetPhysical (m : Mm) (virt : Nat) : Nat :=
  if m.phys m.getPd (pdIndex virt) &&& pagePresent = 0 then 0
  else
    let entry := m.phys (m.getPt (pdIndex virt)) (ptIndex virt)
    if entry &&& pagePresent = 0 then 0
    else (entry &&& 0xFFFFF000) ||| (virt &&& 0xFFF)

def vmmIsMapped (m : Mm) (virt : Nat) : Bool :=
  if m.phys m.getPd (pdIndex virt) &&& pagePresent = 0 then false
  else m.phys (m.getPt (pdIndex virt)) (ptIndex virt) &&& pagePresent != 0

def pageOf (virt : Nat) : Nat := (virt >>> 12) &&& 0xFFFFF

inductive VmmCall where
  | mapPage (virt phys flags : Nat)
  | unmapPage (virt : Nat)

def VmmCall.virt : VmmCall → Nat
  | .mapPage virt _ _ => virt
  | .unmapPage virt => virt

def VmmCall.target : VmmCall → Option Nat
  | .mapPage _ phys _ => some (phys &&& 0xFFFFF000)
  | .unmapPage _ => none

def Mm.call (m : Mm) : VmmCall → Mm
  | .mapPage virt phys flags => vmmMapPage m virt phys flags
  | .unmapPage virt => vmmUnmapPage m virt

def Mm.run (m : Mm) (calls : List VmmCall) : Mm := calls.foldl Mm.call m

def lastCall (page : Nat) (calls : List VmmCall) : Option VmmCall :=
  calls.reverse.find? fun call => pageOf call.virt == page

/-- Memory as `boot/multiboot.asm` leaves it: a directory with one table, for the
kernel half, that maps the first four megabytes. -/
def bootMemory (directory table : Nat) : Nat → Nat → Nat := fun frame index =>
  if frame = directory then (if index = 768 then table * 4096 + 3 else 0)
  else if frame = table then index * 4096 + 3
  else 0

/-- The machine after `vmm_init`. -/
def bootMm (pmm : Pmm) (directory table : Nat) : Mm :=
  vmmInit { pmm, cr3 := directory * 4096, phys := bootMemory directory table }

end ZurichOS
