import ZurichOS.VmmCore

/-!
Pointers a user program hands to a system call: the check of
`kernel/syscall/syscall.c`, and the kernel's accesses through such pointers with a
record of what was checked and touched during the call.
-/

namespace ZurichOS

open Words

abbrev kernelBase : Nat := 0xC0000000

def validateUserPtr (m : Mm) (ptr size : Nat) : Bool :=
  if ptr = 0 then false
  else if 0xC0000000 ≤ ptr then false
  else if u32 (ptr + size) < ptr then false
  else if 0xC0000000 ≤ u32 (ptr + size) then false
  else
    let startPage := ptr &&& 0xFFFFF000
    let endPage := sub32 (u32 (ptr + size)) 1 &&& 0xFFFFF000
    (pageLoop startPage (endPage + 1)).all (vmmIsMapped m)

inductive UserEvent where
  | validated (ptr size : Nat)
  | read (addr len : Nat)
  | write (addr len : Nat)
  deriving DecidableEq

/-- Memory as bytes by virtual address, and what the running call did to it. -/
structure UserSpace where
  memory : Nat → Nat
  trace : List UserEvent

def UserSpace.read (u : UserSpace) (addr len : Nat) : List Nat × UserSpace :=
  ((List.range len).map fun i => u.memory (u32 (addr + i)),
    { u with trace := u.trace ++ [.read addr len] })

def UserSpace.write (u : UserSpace) (addr : Nat) (bytes : List Nat) : UserSpace :=
  { memory := fun a => bytes.getD (sub32 a (u32 addr)) (u.memory a)
    trace := u.trace ++ [.write addr bytes.length] }

def littleEndian : List Nat → Nat
  | [] => 0
  | byte :: rest => byte + 256 * littleEndian rest

def bigEndian (bytes : List Nat) : Nat := littleEndian bytes.reverse

def toLittleEndian (value : Nat) : Nat → List Nat
  | 0 => []
  | count + 1 => value % 256 :: toLittleEndian (value / 256) count

def toBigEndian (value count : Nat) : List Nat := (toLittleEndian value count).reverse

end ZurichOS
