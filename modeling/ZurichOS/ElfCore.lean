import ZurichOS.FrameCore
import ZurichOS.Traced

/-!
`elf_load_from_memory` of `kernel/elf/elf_loader.c` with its accesses: the bytes of the file
it reads, the pages it maps and the bytes it writes for each segment.
-/

namespace ZurichOS

open Words ByteBuffer Traced

abbrev shtInitArray : Nat := 14
abbrev shtFiniArray : Nat := 15
abbrev ctorsName : List UInt8 := [0x2E, 0x63, 0x74, 0x6F, 0x72, 0x73]
abbrev dtorsName : List UInt8 := [0x2E, 0x64, 0x74, 0x6F, 0x72, 0x73]

/-- The bytes that a pointer reaches, at offsets of any size. -/
def elfView (memory : Buffer) (data : Nat) : Buffer := fun position => memory (u32 (data + position))

/-- Bytes read from an offset into the file on, a page mapped for a segment or for the stack,
and bytes written for a segment. -/
inductive ElfAccess where
  | read (start count : Nat)
  | map (segment : Option ElfPhdr) (page : Nat)
  | write (segment : ElfPhdr) (start count : Nat)

abbrev ElfLoader (α : Type) : Type := Program Mm ElfAccess α

/-- `user_process_t`; the pid and the page directory stay 0. -/
structure ElfProgram where
  entry : Nat
  stackTop : Nat
  initArray : Nat
  initArraySize : Nat
  finiArray : Nat
  finiArraySize : Nat

structure ElfSections where
  initArray : Nat
  initArraySize : Nat
  finiArray : Nat
  finiArraySize : Nat
  ctorsStart : Nat
  ctorsEnd : Nat
  dtorsStart : Nat
  dtorsEnd : Nat

section Reads

variable (image : Buffer)

def readByte (position : Nat) : ElfLoader UInt8 := do
  emit (.read position 1)
  pure (image position)

def readWord16 (position : Nat) : ElfLoader Nat := do
  emit (.read position 2)
  pure (word16 image position)

def readWord32 (position : Nat) : ElfLoader Nat := do
  emit (.read position 4)
  pure (word32 image position)

/-- Bytes compared one after the other, up to the first that differs. -/
def matchBytes (position : Nat) : List UInt8 → ElfLoader Bool
  | [] => pure true
  | expected :: rest => do
      let byte ← readByte image position
      if byte = expected then matchBytes (position + 1) rest else pure false

/-- The checks of the header, in the order in which they are made. -/
def checkHeader (size : Nat) : ElfLoader Bool :=
  if size < 52 then pure false
  else do
    let magic ← matchBytes image 0 [0x7F, 0x45, 0x4C, 0x46]
    if magic = false then pure false
    else do
      let elfClass ← readByte image 4
      if elfClass ≠ 1 then pure false
      else do
        let encoding ← readByte image 5
        if encoding ≠ 1 then pure false
        else do
          let machine ← readWord16 image 18
          if machine ≠ 3 then pure false
          else do
            let type ← readWord16 image 16
            pure (decide (type = 2))

end Reads

section Segments

variable (image : Buffer)

def mapPages (segment : Option ElfPhdr) : List Nat → ElfLoader Bool
  | [] => pure true
  | page :: rest => do
      let phys ← silent fun m => ((pmmAllocFrame m.pmm).1, { m with pmm := (pmmAllocFrame m.pmm).2 })
      if phys = 0 then pure false
      else do
        emit (.map segment page)
        silent fun m => ((), vmmMapPage m page phys (pagePresent ||| pageWrite ||| pageUser))
        mapPages segment rest

/-- `memcpy` of the bytes of the file. -/
def copyFile (segment : ElfPhdr) : ElfLoader Unit :=
  if 0 < segment.filesz then do
    emit (.read segment.offset segment.filesz)
    emit (.write segment segment.vaddr segment.filesz)
    silent fun m => ((), m.setBytes segment.vaddr segment.filesz
      fun i => (image (segment.offset + i)).toNat)
  else pure ()

/-- `memset` of the bytes that the file does not have. -/
def clearRest (segment : ElfPhdr) : ElfLoader Unit :=
  if segment.filesz < segment.memsz then do
    emit (.write segment (u32 (segment.vaddr + segment.filesz)) (segment.memsz - segment.filesz))
    silent fun m => ((), m.setBytes (u32 (segment.vaddr + segment.filesz))
      (segment.memsz - segment.filesz) fun _ => 0)
  else pure ()

def loadSegments (phdrs : Nat) : List Nat → ElfLoader Bool
  | [] => pure true
  | index :: rest => do
      let phdr := phdrs + 32 * index
      let type ← readWord32 image phdr
      if type = ptLoad then do
        let vaddr ← readWord32 image (phdr + 8)
        let filesz ← readWord32 image (phdr + 16)
        let memsz ← readWord32 image (phdr + 20)
        let offset ← readWord32 image (phdr + 4)
        let segment : ElfPhdr := { type, offset, vaddr, filesz, memsz }
        let mapped ← mapPages (some segment) segment.pages
        if mapped then do
          copyFile image segment
          clearRest segment
          loadSegments phdrs rest
        else pure false
      else loadSegments phdrs rest

end Segments

section Sections

variable (image : Buffer)

def ElfSections.empty : ElfSections :=
  { initArray := 0, initArraySize := 0, finiArray := 0, finiArraySize := 0
    ctorsStart := 0xFFFFFFFF, ctorsEnd := 0, dtorsStart := 0xFFFFFFFF, dtorsEnd := 0 }

def readRange (shdr : Nat) : ElfLoader (Nat × Nat) := do
  let addr ← readWord32 image (shdr + 12)
  let size ← readWord32 image (shdr + 20)
  pure (addr, size)

def sectionArrays (shdr : Nat) (found : ElfSections) : ElfLoader ElfSections := do
  let type ← readWord32 image (shdr + 4)
  if type = shtInitArray then do
    let range ← readRange image shdr
    pure { found with initArray := range.1, initArraySize := range.2 }
  else if type = shtFiniArray then do
    let range ← readRange image shdr
    pure { found with finiArray := range.1, finiArraySize := range.2 }
  else pure found

def sectionCtors (name shdr : Nat) (found : ElfSections) : ElfLoader ElfSections := do
  let named ← matchBytes image name ctorsName
  if named then do
    let (addr, size) ← readRange image shdr
    pure { found with
      ctorsStart := min addr found.ctorsStart, ctorsEnd := max (u32 (addr + size)) found.ctorsEnd }
  else pure found

def sectionDtors (name shdr : Nat) (found : ElfSections) : ElfLoader ElfSections := do
  let named ← matchBytes image name dtorsName
  if named then do
    let (addr, size) ← readRange image shdr
    pure { found with
      dtorsStart := min addr found.dtorsStart, dtorsEnd := max (u32 (addr + size)) found.dtorsEnd }
  else pure found

/-- What a section's name says; `names` is the offset of the string table, if there is one. -/
def sectionNamed (names : Option Nat) (shdr : Nat) (found : ElfSections) : ElfLoader ElfSections :=
  match names with
  | none => pure found
  | some table => do
      let name ← readWord32 image shdr
      if name = 0 then pure found
      else do
        let found ← sectionCtors image (table + name) shdr found
        sectionDtors image (table + name) shdr found

def loadSections (names : Option Nat) (shdrs : Nat) :
    List Nat → ElfSections → ElfLoader ElfSections
  | [], found => pure found
  | index :: rest, found => do
      let found ← sectionArrays image (shdrs + 40 * index) found
      let found ← sectionNamed image names (shdrs + 40 * index) found
      loadSections names shdrs rest found

/-- The string table, at the address `data` and the section's offset; at address 0 it counts
as missing. -/
def sectionNames (data shdrs shnum shstrndx : Nat) : ElfLoader (Option Nat) :=
  if shstrndx < shnum then do
    let offset ← readWord32 image (shdrs + 40 * shstrndx + 16)
    pure (if u32 (data + offset) = 0 then none else some offset)
  else pure none

def elfSections (data : Nat) : ElfLoader ElfSections := do
  let shdrs ← readWord32 image 32
  let shnum ← readWord16 image 48
  if shdrs ≠ 0 ∧ 0 < shnum then do
    let shstrndx ← readWord16 image 50
    let names ← sectionNames image data shdrs shnum shstrndx
    let found ← loadSections image names shdrs (List.range shnum) .empty
    let found :=
      if found.initArray = 0 ∧ found.ctorsStart ≠ 0xFFFFFFFF then
        { found with
          initArray := found.ctorsStart, initArraySize := sub32 found.ctorsEnd found.ctorsStart }
      else found
    pure
      (if found.finiArray = 0 ∧ found.dtorsStart ≠ 0xFFFFFFFF then
        { found with
          finiArray := found.dtorsStart, finiArraySize := sub32 found.dtorsEnd found.dtorsStart }
      else found)
  else pure .empty

end Sections

/-- `elf_load_from_memory` of the file at the address `data`, with the program that it leaves
at the address `proc` that `kmalloc` gives. -/
def elfLoad (memory : Buffer) (data size proc : Nat) : ElfLoader (Option ElfProgram) := do
  let image := elfView memory data
  let valid ← checkHeader image size
  if valid = false then pure none
  else do
    let entry ← readWord32 image 24
    if proc = 0 then pure none
    else do
      let phdrs ← readWord32 image 28
      let phnum ← readWord16 image 44
      let loaded ← loadSegments image phdrs (List.range phnum)
      if loaded = false then pure none
      else do
        let found ← elfSections image data
        let stack ← mapPages none elfStackPages
        pure
          (if stack then some
            { entry, stackTop := userStackTop - 16, initArray := found.initArray
              initArraySize := found.initArraySize, finiArray := found.finiArray
              finiArraySize := found.finiArraySize }
          else none)

end ZurichOS
