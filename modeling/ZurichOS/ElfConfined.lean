import ZurichOS.ElfCore

set_option linter.all false

/-!
Which files the program loader handles within bounds: it reads inside the file, and touches
for a segment only the pages of that segment, in the user half.  It checks no offset, count,
address or size of a header, so the conditions are on the headers that it comes to.
-/

namespace ZurichOS

open Words ByteBuffer Traced

/-- The page or byte lies in the segment's memory range, rounded to pages. -/
def ElfPhdr.Covers (phdr : ElfPhdr) (addr : Nat) : Prop :=
  phdr.vaddr / 4096 * 4096 ≤ addr ∧ addr < (phdr.vaddr + phdr.memsz + 4095) / 4096 * 4096 ∧
    addr < 0xC0000000

def ElfAccess.Confined (size : Nat) : ElfAccess → Prop
  | .read start count => ∀ i < count, u32 (start + i) < size
  | .map none _ => True
  | .map (some segment) page => segment.Covers page
  | .write segment start count => ∀ i < count, segment.Covers (u32 (start + i))

/-- The bytes from an offset on lie inside the file. -/
def Inside (size start count : Nat) : Prop := count = 0 ∨ u32 start + count ≤ size

/-- How many bytes are looked at when they are compared with those expected. -/
def comparedBytes (image : Buffer) : Nat → List UInt8 → Nat
  | _, [] => 0
  | position, expected :: rest =>
      if image position = expected then comparedBytes image (position + 1) rest + 1 else 1

def bytesMatch (image : Buffer) : Nat → List UInt8 → Bool
  | _, [] => true
  | position, expected :: rest =>
      decide (image position = expected) && bytesMatch image (position + 1) rest

/-- A segment whose file bytes lie in the file and in its pages, and whose bytes, or whose one
page if it has none, lie in the user half. -/
structure ElfPhdr.Confined (phdr : ElfPhdr) (size : Nat) : Prop where
  file : Inside size phdr.offset phdr.filesz
  below : 0 < max phdr.filesz phdr.memsz → phdr.vaddr + max phdr.filesz phdr.memsz ≤ 0xC0000000
  covered : phdr.vaddr + phdr.filesz ≤ (phdr.vaddr + phdr.memsz + 4095) / 4096 * 4096
  bare : phdr.filesz = 0 → phdr.memsz = 0 →
    phdr.vaddr % 4096 = 0 ∨ phdr.vaddr < 0xC0000000 ∨ 0xFFFFF000 < phdr.vaddr

/-- The pages of a list up to the first that is not in the user half. -/
def pagesToKernel : List Nat → List Nat
  | [] => []
  | page :: rest => if page < 0xC0000000 then page :: pagesToKernel rest else [page]

structure SegmentFieldsInside (size phdr : Nat) : Prop where
  vaddr : Inside size (phdr + 8) 4
  filesz : Inside size (phdr + 16) 4
  memsz : Inside size (phdr + 20) 4
  offset : Inside size (phdr + 4) 4

def RangeInside (size shdr : Nat) : Prop := Inside size (shdr + 12) 4 ∧ Inside size (shdr + 20) 4

/-- The bytes compared with the two names, and the range if the section has one of them. -/
structure NameInside (image : Buffer) (size name shdr : Nat) : Prop where
  ctors : Inside size name (comparedBytes image name ctorsName)
  dtors : Inside size name (comparedBytes image name dtorsName)
  range : bytesMatch image name ctorsName = true ∨ bytesMatch image name dtorsName = true →
    RangeInside size shdr

structure SectionInside (image : Buffer) (size : Nat) (names : Option Nat) (shdr : Nat) :
    Prop where
  type : Inside size (shdr + 4) 4
  array : word32 image (shdr + 4) = shtInitArray ∨ word32 image (shdr + 4) = shtFiniArray →
    RangeInside size shdr
  name : ∀ table ∈ names, Inside size shdr 4 ∧
    (word32 image shdr ≠ 0 → NameInside image size (table + word32 image shdr) shdr)

/-- The string table that the section headers name, if there is one. -/
def elfNames (image : Buffer) (data : Nat) : Option Nat :=
  if word16 image 50 < word16 image 48 then
    let offset := word32 image (word32 image 32 + 40 * word16 image 50 + 16)
    if u32 (data + offset) = 0 then none else some offset
  else none

structure SectionsInside (image : Buffer) (data size : Nat) : Prop where
  names : word16 image 50 < word16 image 48 →
    Inside size (word32 image 32 + 40 * word16 image 50 + 16) 4
  each : ∀ index < word16 image 48,
    SectionInside image size (elfNames image data) (word32 image 32 + 40 * index)

/-- The program headers from some place on, met by a machine on which the segments before are
loaded: each lies inside the file and its segment is confined, or memory runs out before the
loader comes to a page of the kernel half and to the segment's bytes. -/
def SegmentsConfined (image : Buffer) (data size : Nat) : List Nat → Mm → Prop
  | [], _ =>
      word32 image 32 ≠ 0 → 0 < word16 image 48 → SectionsInside image data size
  | index :: rest, m =>
      let phdr := elfPhdr image index
      Inside size (word32 image 28 + 32 * index) 4 ∧
        if phdr.type = ptLoad then
          SegmentFieldsInside size (word32 image 28 + 32 * index) ∧
          (phdr.Confined size ∨ (elfMapPages (pagesToKernel phdr.pages) m).1 = false) ∧
          ((elfMapPages phdr.pages m).1 = true → SegmentsConfined image data size rest
            (elfCopySegment image phdr (elfMapPages phdr.pages m).2))
        else SegmentsConfined image data size rest m

section Outcomes

variable (image : Buffer) (m : Mm)

@[simp] theorem outcome_readByte (position : Nat) :
    (readByte image position).outcome m = (image position, m) := by
  simp [readByte]

@[simp] theorem outcome_readWord16 (position : Nat) :
    (readWord16 image position).outcome m = (word16 image position, m) := by
  simp [readWord16]

@[simp] theorem outcome_readWord32 (position : Nat) :
    (readWord32 image position).outcome m = (word32 image position, m) := by
  simp [readWord32]

@[simp] theorem outcome_matchBytes (position : Nat) (expected : List UInt8) :
    (matchBytes image position expected).outcome m = (bytesMatch image position expected, m) := by
  induction expected generalizing position with
  | nil => rfl
  | cons first rest ih =>
      simp only [matchBytes, bytesMatch, outcome_bind, outcome_readByte, outcome_ite]
      by_cases same : image position = first
      · simp [same, ih]
      · simp [same]

@[simp] theorem outcome_checkHeader (size : Nat) :
    (checkHeader image size).outcome m = (elfHeaderValid image size, m) := by
  unfold checkHeader elfHeaderValid
  by_cases short : size < 52
  · simp [short]
  · simp only [if_neg short, outcome_bind, outcome_ite, outcome_matchBytes, outcome_readByte,
      outcome_readWord16, outcome_pure, bytesMatch, Nat.reduceAdd]
    split_ifs <;> simp_all [Bool.beq_eq_decide_eq]

theorem outcome_mapPages (segment : Option ElfPhdr) (pages : List Nat) :
    (mapPages segment pages).outcome m = elfMapPages pages m := by
  induction pages generalizing m with
  | nil => rfl
  | cons page rest ih =>
      simp only [mapPages, elfMapPages, outcome_bind, outcome_silent, outcome_ite, outcome_pure,
        outcome_emit, ih]

theorem outcome_copy (segment : ElfPhdr) :
    (do copyFile image segment; clearRest segment).outcome m =
      ((), elfCopySegment image segment m) := by
  have copied : (copyFile image segment).outcome m = ((), m.setBytes segment.vaddr segment.filesz
      fun i => (image (segment.offset + i)).toNat) := by
    unfold copyFile
    by_cases bytes : 0 < segment.filesz
    · simp [bytes]
    · obtain none : segment.filesz = 0 := by omega
      simp [none, Mm.setBytes]
  simp only [outcome_bind, copied, clearRest, elfCopySegment, outcome_ite, outcome_emit,
    outcome_silent, outcome_pure]
  split <;> rfl

theorem outcome_loadSegments (indices : List Nat) :
    (loadSegments image (word32 image 28) indices).outcome m = elfLoadSegments image indices m := by
  induction indices generalizing m with
  | nil => rfl
  | cons index rest ih =>
      have copied := outcome_copy image
      simp only [outcome_bind] at copied
      have fields : ElfPhdr.mk (word32 image (word32 image 28 + 32 * index))
          (word32 image (word32 image 28 + 32 * index + 4))
          (word32 image (word32 image 28 + 32 * index + 8))
          (word32 image (word32 image 28 + 32 * index + 16))
          (word32 image (word32 image 28 + 32 * index + 20)) = elfPhdr image index := rfl
      simp only [loadSegments, outcome_bind, outcome_readWord32, outcome_ite, outcome_mapPages,
        outcome_pure, ih, copied, fields]
      rw [elfLoadSegments]
      by_cases load : (elfPhdr image index).type = ptLoad
      · rw [if_pos load, if_pos (show word32 image (word32 image 28 + 32 * index) = ptLoad from load)]
        dsimp only
        split
        · rfl
        · rename_i short
          exact Prod.ext (Bool.eq_false_iff.mpr short).symm rfl
      · rw [if_neg load, if_neg (show word32 image (word32 image 28 + 32 * index) ≠ ptLoad from load)]

@[simp] theorem outcome_readRange (shdr : Nat) : (readRange image shdr).outcome m =
    ((word32 image (shdr + 12), word32 image (shdr + 20)), m) := by
  simp [readRange]

@[simp] theorem sectionArrays_memory (shdr : Nat) (found : ElfSections) :
    ((sectionArrays image shdr found).outcome m).2 = m := by
  simp only [sectionArrays, outcome_bind, outcome_readWord32, outcome_ite, outcome_readRange,
    outcome_pure]
  split_ifs <;> rfl

@[simp] theorem sectionCtors_memory (name shdr : Nat) (found : ElfSections) :
    ((sectionCtors image name shdr found).outcome m).2 = m := by
  simp only [sectionCtors, outcome_bind, outcome_matchBytes, outcome_ite, outcome_readRange,
    outcome_pure]
  split_ifs <;> rfl

@[simp] theorem sectionDtors_memory (name shdr : Nat) (found : ElfSections) :
    ((sectionDtors image name shdr found).outcome m).2 = m := by
  simp only [sectionDtors, outcome_bind, outcome_matchBytes, outcome_ite, outcome_readRange,
    outcome_pure]
  split_ifs <;> rfl

@[simp] theorem sectionNamed_memory (names : Option Nat) (shdr : Nat) (found : ElfSections) :
    ((sectionNamed image names shdr found).outcome m).2 = m := by
  cases names with
  | none => simp [sectionNamed]
  | some table =>
      simp only [sectionNamed, outcome_bind, outcome_readWord32, outcome_ite, outcome_pure]
      split_ifs
      · rfl
      · simp

@[simp] theorem loadSections_memory (names : Option Nat) (shdrs : Nat) (indices : List Nat)
    (found : ElfSections) : ((loadSections image names shdrs indices found).outcome m).2 = m := by
  induction indices generalizing found with
  | nil => simp [loadSections]
  | cons index rest ih => simp [loadSections, ih]

@[simp] theorem outcome_sectionNames (data shdrs shnum shstrndx : Nat) :
    (sectionNames image data shdrs shnum shstrndx).outcome m =
      (if shstrndx < shnum then
        if u32 (data + word32 image (shdrs + 40 * shstrndx + 16)) = 0 then none
        else some (word32 image (shdrs + 40 * shstrndx + 16))
      else none, m) := by
  simp only [sectionNames, outcome_bind, outcome_readWord32, outcome_ite, outcome_pure]
  split_ifs <;> rfl

@[simp] theorem elfSections_memory (data : Nat) : ((elfSections image data).outcome m).2 = m := by
  simp only [elfSections, outcome_bind, outcome_readWord32, outcome_readWord16, outcome_ite,
    outcome_sectionNames, outcome_pure]
  split_ifs <;> simp

end Outcomes

/-- The loader with its accesses does to the machine what the plain one does. -/
theorem elfLoad_outcome (memory : Buffer) (data size proc : Nat) (m : Mm) :
    ((elfLoad memory data size proc).outcome m).2 =
        (elfLoadFromMemory m (elfView memory data) size proc).2 ∧
      ((elfLoad memory data size proc).outcome m).1.isSome =
        (elfLoadFromMemory m (elfView memory data) size proc).1.isSome := by
  simp only [elfLoad, elfLoadFromMemory, outcome_bind, outcome_checkHeader, outcome_readWord32,
    outcome_readWord16, outcome_ite, outcome_pure, outcome_loadSegments, outcome_mapPages,
    elfSections_memory, show word16 (elfView memory data) 44 = elfPhnum (elfView memory data) from rfl]
  cases valid : elfHeaderValid (elfView memory data) size with
  | false => simp
  | true =>
      by_cases made : proc = 0
      · simp [made]
      · split_ifs <;> simp_all

theorem inside_iff {limit : Nat} (word : limit < 4294967296) (start count : Nat) :
    (∀ i < count, u32 (start + i) < limit) ↔ Inside limit start count := by
  unfold Inside u32
  constructor
  · intro inside
    by_contra outside
    have first := inside 0 (by omega)
    have last := inside (limit - start % 4294967296) (by omega)
    omega
  · intro inside i below
    omega

section Reads

variable {size : Nat} (word : size < 4294967296) (image : Buffer) (m : Mm)

include word

theorem inside_succ (start count : Nat) :
    Inside size start (count + 1) ↔ Inside size start 1 ∧ Inside size (start + 1) count := by
  unfold Inside u32
  omega

theorem all_readByte (position : Nat) :
    (readByte image position).All (ElfAccess.Confined size) m ↔ Inside size position 1 := by
  simp only [readByte, all_bind, all_emit, all_pure, and_true]
  exact inside_iff word position 1

theorem all_readWord16 (position : Nat) :
    (readWord16 image position).All (ElfAccess.Confined size) m ↔ Inside size position 2 := by
  simp only [readWord16, all_bind, all_emit, all_pure, and_true]
  exact inside_iff word position 2

theorem all_readWord32 (position : Nat) :
    (readWord32 image position).All (ElfAccess.Confined size) m ↔ Inside size position 4 := by
  simp only [readWord32, all_bind, all_emit, all_pure, and_true]
  exact inside_iff word position 4

theorem all_matchBytes (position : Nat) (expected : List UInt8) :
    (matchBytes image position expected).All (ElfAccess.Confined size) m ↔
      Inside size position (comparedBytes image position expected) := by
  induction expected generalizing position with
  | nil => simp [matchBytes, comparedBytes, Inside]
  | cons first rest ih =>
      simp only [matchBytes, comparedBytes, all_bind, all_readByte word, outcome_readByte, all_ite,
        all_pure]
      by_cases same : image position = first
      · simp only [if_pos same, ih]
        exact (inside_succ word _ _).symm
      · simp only [if_neg same, and_true]

omit word in
theorem inside_header (long : 52 ≤ size) {start count : Nat} (below : start + count ≤ 52) :
    Inside size start count := .inr (by unfold u32; omega)

omit word in
theorem comparedBytes_le (position : Nat) (expected : List UInt8) :
    comparedBytes image position expected ≤ expected.length := by
  induction expected generalizing position with
  | nil => simp [comparedBytes]
  | cons first rest ih =>
      have later := ih (position + 1)
      rw [comparedBytes, List.length_cons]
      split <;> omega

theorem all_checkHeader : (checkHeader image size).All (ElfAccess.Confined size) m := by
  unfold checkHeader
  by_cases short : size < 52
  · simp [short]
  · have inside : ∀ start count, start + count ≤ 52 → Inside size start count :=
      fun start count => inside_header (Nat.not_lt.mp short)
    have magic : Inside size 0 (comparedBytes image 0 [0x7F, 0x45, 0x4C, 0x46]) :=
      inside _ _ (le_trans (Nat.add_le_add_left (comparedBytes_le _ _ _) 0) (by decide))
    simp only [if_neg short, all_bind, all_ite, all_matchBytes word, all_readByte word,
      all_readWord16 word, all_pure, magic, inside 4 1 (by omega), inside 5 1 (by omega),
      inside 18 2 (by omega), inside 16 2 (by omega), true_and, ite_self]

end Reads

section Segments

variable {size : Nat} (image : Buffer) (m : Mm)

theorem all_mapStack (pages : List Nat) :
    (mapPages none pages).All (ElfAccess.Confined size) m := by
  induction pages generalizing m with
  | nil => simp [mapPages]
  | cons page rest ih =>
      simp only [mapPages, all_bind, all_silent, all_ite, all_emit, all_pure, ih, and_true,
        ElfAccess.Confined, ite_self]

theorem pagesToKernel_low {pages : List Nat} (low : ∀ page ∈ pages, page < 0xC0000000) :
    pagesToKernel pages = pages := by
  induction pages with
  | nil => rfl
  | cons page rest ih =>
      obtain ⟨first, later⟩ := List.forall_mem_cons.mp low
      rw [pagesToKernel, if_pos first, ih later]

theorem pagesToKernel_fails {pages : List Nat}
    (fails : (elfMapPages (pagesToKernel pages) m).1 = false) : (elfMapPages pages m).1 = false := by
  induction pages generalizing m with
  | nil => exact fails
  | cons page rest ih =>
      rw [pagesToKernel] at fails
      simp only [elfMapPages]
      split at fails
      · simp only [elfMapPages] at fails
        split at fails
        · rename_i dry
          rw [if_pos dry]
        · rename_i given
          rw [if_neg given]
          exact ih _ fails
      · simp only [elfMapPages] at fails
        split at fails
        · rename_i dry
          rw [if_pos dry]
        · cases fails

theorem all_mapPages {segment : ElfPhdr} {pages : List Nat}
    (covers : ∀ page ∈ pages, segment.Covers page ↔ page < 0xC0000000) :
    (mapPages (some segment) pages).All (ElfAccess.Confined size) m ↔
      (∀ page ∈ pages, page < 0xC0000000) ∨ (elfMapPages (pagesToKernel pages) m).1 = false := by
  induction pages generalizing m with
  | nil => simp [mapPages]
  | cons page rest ih =>
      obtain ⟨first, later⟩ := List.forall_mem_cons.mp covers
      simp only [mapPages, all_bind, all_silent, outcome_silent, all_ite, all_emit, outcome_emit,
        all_pure, ElfAccess.Confined, first, true_and, List.forall_mem_cons, ih _ later]
      by_cases low : page < 0xC0000000
      · rw [show pagesToKernel (page :: rest) = page :: pagesToKernel rest from if_pos low]
        simp only [elfMapPages, low, true_and]
        split
        · exact iff_of_true trivial (.inr rfl)
        · rfl
      · rw [show pagesToKernel (page :: rest) = [page] from if_neg low]
        simp only [elfMapPages, low, false_and, false_or]
        split
        · exact iff_of_true trivial rfl
        · exact iff_of_false id Bool.true_eq_false.mp

structure ElfPhdr.BytesConfined (phdr : ElfPhdr) (size : Nat) : Prop where
  file : Inside size phdr.offset phdr.filesz
  copied : ∀ i < phdr.filesz, phdr.Covers (u32 (phdr.vaddr + i))
  cleared : ∀ i < phdr.memsz - phdr.filesz, phdr.Covers (u32 (u32 (phdr.vaddr + phdr.filesz) + i))

structure ElfPhdr.Words (phdr : ElfPhdr) : Prop where
  vaddr : phdr.vaddr < 4294967296
  filesz : phdr.filesz < 4294967296
  memsz : phdr.memsz < 4294967296

theorem elfPhdr_words (index : Nat) : (elfPhdr image index).Words :=
  ⟨word32_lt _, word32_lt _, word32_lt _⟩

theorem all_copy (word : size < 4294967296) (phdr : ElfPhdr) :
    (copyFile image phdr).All (ElfAccess.Confined size) m ∧
      (clearRest phdr).All (ElfAccess.Confined size) ((copyFile image phdr).outcome m).2 ↔
        phdr.BytesConfined size := by
  have copied : (copyFile image phdr).All (ElfAccess.Confined size) m ↔
      Inside size phdr.offset phdr.filesz ∧
        ∀ i < phdr.filesz, phdr.Covers (u32 (phdr.vaddr + i)) := by
    unfold copyFile
    by_cases bytes : 0 < phdr.filesz
    · simp only [if_pos bytes, all_bind, all_emit, all_silent, and_true, ElfAccess.Confined,
        inside_iff word]
    · obtain none : phdr.filesz = 0 := Nat.eq_zero_of_not_pos bytes
      simp [none, Inside]
  have cleared : ∀ m, (clearRest phdr).All (ElfAccess.Confined size) m ↔
      ∀ i < phdr.memsz - phdr.filesz,
        phdr.Covers (u32 (u32 (phdr.vaddr + phdr.filesz) + i)) := by
    intro m
    unfold clearRest
    by_cases bytes : phdr.filesz < phdr.memsz
    · simp only [if_pos bytes, all_bind, all_emit, all_silent, and_true, ElfAccess.Confined]
    · obtain none : phdr.memsz - phdr.filesz = 0 := by omega
      simp [bytes, none]
  rw [copied, cleared, and_assoc]
  constructor
  · rintro ⟨file, copied, cleared⟩
    exact ⟨file, copied, cleared⟩
  · rintro ⟨file, copied, cleared⟩
    exact ⟨file, copied, cleared⟩

theorem ElfPhdr.Words.mem_pages {phdr : ElfPhdr} (words : phdr.Words) {page : Nat} :
    page ∈ phdr.pages ↔ phdr.vaddr / 4096 * 4096 ≤ page ∧
      page < u32 (phdr.vaddr + phdr.memsz + 4095) / 4096 * 4096 ∧ page % 4096 = 0 := by
  rw [ElfPhdr.pages, and_pageMask words.vaddr, and_pageMask (u32_lt _), mem_pageLoop]
  omega

theorem ElfPhdr.Words.covers_page {phdr : ElfPhdr} (words : phdr.Words) :
    ∀ page ∈ phdr.pages, phdr.Covers page ↔ page < 0xC0000000 := by
  intro page member
  obtain ⟨lower, upper, _⟩ := words.mem_pages.mp member
  have stop := Nat.mod_le (phdr.vaddr + phdr.memsz + 4095) 4294967296
  have rounded := Nat.mul_le_mul_right 4096 (Nat.div_le_div_right (c := 4096) stop)
  exact ⟨fun covers => covers.2.2, fun low => ⟨lower, Nat.lt_of_lt_of_le upper rounded, low⟩⟩

/-- The pages and the bytes of a segment lie where they should exactly if its header says so. -/
theorem ElfPhdr.Words.confined_iff {phdr : ElfPhdr} (words : phdr.Words) :
    ((∀ page ∈ phdr.pages, page < 0xC0000000) ∧ phdr.BytesConfined size) ↔ phdr.Confined size := by
  obtain ⟨vaddrWord, fileWord, memWord⟩ := words
  have words : phdr.Words := ⟨vaddrWord, fileWord, memWord⟩
  constructor
  · rintro ⟨pages, file, copied, cleared⟩
    have copiedBelow := (inside_iff (by decide) phdr.vaddr phdr.filesz).mp
      fun i below => (copied i below).2.2
    have clearedBelow := (inside_iff (by decide) (u32 (phdr.vaddr + phdr.filesz))
      (phdr.memsz - phdr.filesz)).mp fun i below => (cleared i below).2.2
    unfold Inside u32 at copiedBelow clearedBelow
    refine ⟨file, fun some => by omega, ?_, fun noFile noMemory => ?_⟩
    · by_contra beyond
      have last := (copied (phdr.filesz - 1) (by omega)).2.1
      unfold u32 at last
      omega
    · by_contra bare
      have page := pages (phdr.vaddr / 4096 * 4096) (words.mem_pages.mpr ⟨le_refl _, by
        unfold u32
        omega, by omega⟩)
      omega
  · rintro ⟨file, below, covered, bare⟩
    refine ⟨fun page member => ?_, file, fun i inside => ?_, fun i inside => ?_⟩
    · obtain ⟨lower, upper, aligned⟩ := words.mem_pages.mp member
      unfold u32 at upper
      omega
    · have some := below (by omega)
      rw [u32_eq_of_lt (by omega)]
      exact ⟨by omega, by omega, by omega⟩
    · have some := below (by omega)
      rw [u32_eq_of_lt (show phdr.vaddr + phdr.filesz < 4294967296 by omega),
        u32_eq_of_lt (by omega)]
      exact ⟨by omega, by omega, by omega⟩

/-- A segment whose pages are all mapped is read and written within bounds exactly if its header
is confined. -/
theorem ElfPhdr.Words.reached_iff {phdr : ElfPhdr} (words : phdr.Words) {rest : Prop} :
    ((∀ page ∈ phdr.pages, page < 0xC0000000) ∨
        (elfMapPages (pagesToKernel phdr.pages) m).1 = false) ∧
      ((elfMapPages phdr.pages m).1 = true → phdr.BytesConfined size ∧ rest) ↔
    (phdr.Confined size ∨ (elfMapPages (pagesToKernel phdr.pages) m).1 = false) ∧
      ((elfMapPages phdr.pages m).1 = true → rest) := by
  cases all : (elfMapPages phdr.pages m).1 with
  | false =>
      have short : (∀ page ∈ phdr.pages, page < 0xC0000000) →
          (elfMapPages (pagesToKernel phdr.pages) m).1 = false := by
        intro user
        rw [pagesToKernel_low user, all]
      simp only [Bool.false_eq_true, false_implies, and_true]
      exact ⟨fun either => .inr (either.elim short id),
        fun either => .inr (either.elim (fun fit => short (words.confined_iff.mpr fit).1) id)⟩
  | true =>
      have unreached : (elfMapPages (pagesToKernel phdr.pages) m).1 ≠ false :=
        fun short => Bool.false_ne_true ((pagesToKernel_fails m short).symm.trans all)
      simp only [unreached, reduceCtorEq, or_false, true_implies, ← words.confined_iff, and_assoc]

theorem segmentFieldsInside_iff (start : Nat) :
    SegmentFieldsInside size start ↔ Inside size (start + 8) 4 ∧ Inside size (start + 16) 4 ∧
      Inside size (start + 20) 4 ∧ Inside size (start + 4) 4 := by
  constructor
  · rintro ⟨vaddr, filesz, memsz, offset⟩
    exact ⟨vaddr, filesz, memsz, offset⟩
  · rintro ⟨vaddr, filesz, memsz, offset⟩
    exact ⟨vaddr, filesz, memsz, offset⟩

/-- A list of segments is loaded within bounds, and what comes behind it is good if it is
reached. -/
theorem all_loadSegments (word : size < 4294967296) (data : Nat) (indices : List Nat) :
    (loadSegments image (word32 image 28) indices).All (ElfAccess.Confined size) m ∧
      ((elfLoadSegments image indices m).1 = true → word32 image 32 ≠ 0 → 0 < word16 image 48 →
        SectionsInside image data size) ↔ SegmentsConfined image data size indices m := by
  induction indices generalizing m with
  | nil => simp [loadSegments, elfLoadSegments, SegmentsConfined]
  | cons index rest ih =>
      have words := elfPhdr_words image index
      have fields : ElfPhdr.mk (word32 image (word32 image 28 + 32 * index))
          (word32 image (word32 image 28 + 32 * index + 4))
          (word32 image (word32 image 28 + 32 * index + 8))
          (word32 image (word32 image 28 + 32 * index + 16))
          (word32 image (word32 image 28 + 32 * index + 20)) = elfPhdr image index := rfl
      simp only [loadSegments, all_bind, all_readWord32 word, outcome_readWord32, all_ite, all_pure,
        outcome_mapPages, fields, all_mapPages m words.covers_page]
      simp only [SegmentsConfined, elfLoadSegments]
      by_cases load : (elfPhdr image index).type = ptLoad
      · rw [if_pos load, if_pos load,
          if_pos (show word32 image (word32 image 28 + 32 * index) = ptLoad from load)]
        have copied := all_copy image (elfMapPages (elfPhdr image index).pages m).2 word
          (elfPhdr image index)
        have after := outcome_copy image (elfMapPages (elfPhdr image index).pages m).2
          (elfPhdr image index)
        simp only [outcome_bind] at after
        rw [← words.reached_iff, ← ih, ← copied, after, segmentFieldsInside_iff]
        by_cases all : (elfMapPages (elfPhdr image index).pages m).1 = true
        · simp only [all, if_true, true_implies, and_assoc]
        · simp only [all, Bool.false_eq_true, if_false, false_implies, and_true, and_assoc]
      · rw [if_neg load, if_neg load,
          if_neg (show word32 image (word32 image 28 + 32 * index) ≠ ptLoad from load),
          and_assoc, ih m]

end Segments

section Sections

variable {size : Nat} (word : size < 4294967296) (image : Buffer) (m : Mm)

include word

theorem all_readRange (shdr : Nat) :
    (readRange image shdr).All (ElfAccess.Confined size) m ↔ RangeInside size shdr := by
  simp only [readRange, all_bind, all_readWord32 word, outcome_readWord32, all_pure, and_true,
    RangeInside]

theorem all_sectionArrays (shdr : Nat) (found : ElfSections) :
    (sectionArrays image shdr found).All (ElfAccess.Confined size) m ↔
      Inside size (shdr + 4) 4 ∧ (word32 image (shdr + 4) = shtInitArray ∨
        word32 image (shdr + 4) = shtFiniArray → RangeInside size shdr) := by
  simp only [sectionArrays, all_bind, all_readWord32 word, outcome_readWord32, all_ite,
    all_readRange word, all_pure, and_true]
  split_ifs <;> simp [*]

theorem all_sectionCtors (name shdr : Nat) (found : ElfSections) :
    (sectionCtors image name shdr found).All (ElfAccess.Confined size) m ↔
      Inside size name (comparedBytes image name ctorsName) ∧
        (bytesMatch image name ctorsName = true → RangeInside size shdr) := by
  simp only [sectionCtors, all_bind, all_matchBytes word, outcome_matchBytes, all_ite,
    all_readRange word, all_pure, and_true]
  split_ifs <;> simp [*]

theorem all_sectionDtors (name shdr : Nat) (found : ElfSections) :
    (sectionDtors image name shdr found).All (ElfAccess.Confined size) m ↔
      Inside size name (comparedBytes image name dtorsName) ∧
        (bytesMatch image name dtorsName = true → RangeInside size shdr) := by
  simp only [sectionDtors, all_bind, all_matchBytes word, outcome_matchBytes, all_ite,
    all_readRange word, all_pure, and_true]
  split_ifs <;> simp [*]

theorem all_sectionNamed (names : Option Nat) (shdr : Nat) (found : ElfSections) :
    (sectionNamed image names shdr found).All (ElfAccess.Confined size) m ↔
      ∀ table ∈ names, Inside size shdr 4 ∧ (word32 image shdr ≠ 0 →
        NameInside image size (table + word32 image shdr) shdr) := by
  cases names with
  | none => simp [sectionNamed]
  | some table =>
      simp only [sectionNamed, all_bind, all_readWord32 word, outcome_readWord32, all_ite, all_pure,
        all_sectionCtors word, all_sectionDtors word, Option.mem_some_iff, forall_eq']
      refine and_congr_right fun _ => ?_
      split
      · rename_i unnamed
        exact iff_of_true trivial fun named => absurd unnamed named
      · rename_i named
        constructor
        · rintro ⟨⟨ctors, ctorsRange⟩, dtors, dtorsRange⟩ _
          exact ⟨ctors, dtors, fun either => either.elim ctorsRange dtorsRange⟩
        · intro inside
          obtain ⟨ctors, dtors, range⟩ := inside named
          exact ⟨⟨ctors, fun isCtors => range (.inl isCtors)⟩,
            dtors, fun isDtors => range (.inr isDtors)⟩

theorem all_loadSections (names : Option Nat) (shdrs : Nat) (indices : List Nat)
    (found : ElfSections) :
    (loadSections image names shdrs indices found).All (ElfAccess.Confined size) m ↔
      ∀ index ∈ indices, SectionInside image size names (shdrs + 40 * index) := by
  induction indices generalizing found with
  | nil => simp [loadSections]
  | cons index rest ih =>
      simp only [loadSections, all_bind, all_sectionArrays word, all_sectionNamed word,
        sectionArrays_memory, sectionNamed_memory, ih, List.forall_mem_cons]
      rw [← and_assoc]
      refine and_congr_left fun _ => ?_
      constructor
      · rintro ⟨⟨type, array⟩, name⟩
        exact ⟨type, array, name⟩
      · rintro ⟨type, array, name⟩
        exact ⟨⟨type, array⟩, name⟩

theorem all_elfSections (long : 52 ≤ size) (data : Nat) :
    (elfSections image data).All (ElfAccess.Confined size) m ↔
      (word32 image 32 ≠ 0 → 0 < word16 image 48 → SectionsInside image data size) := by
  have inside : ∀ start count, start + count ≤ 52 → Inside size start count :=
    fun start count => inside_header long
  simp only [elfSections, all_bind, all_readWord32 word, all_readWord16 word, outcome_readWord32,
    outcome_readWord16, all_ite, all_pure, inside 32 4 (by omega), inside 48 2 (by omega),
    inside 50 2 (by omega), true_and, and_true, all_loadSections word, outcome_sectionNames,
    List.mem_range]
  have names : (sectionNames image data (word32 image 32) (word16 image 48)
      (word16 image 50)).All (ElfAccess.Confined size) m ↔ (word16 image 50 < word16 image 48 →
        Inside size (word32 image 32 + 40 * word16 image 50 + 16) 4) := by
    simp only [sectionNames, all_bind, all_ite, all_readWord32 word, all_pure, and_true]
    split_ifs <;> simp [*]
  split
  · rename_i present
    rw [names]
    constructor
    · rintro ⟨table, each⟩ _ _
      exact ⟨table, each⟩
    · intro sections
      obtain ⟨table, each⟩ := sections present.1 present.2
      exact ⟨table, each⟩
  · rename_i absent
    exact iff_of_true trivial fun some many => absurd ⟨some, many⟩ absent

end Sections

theorem elfLoad_confined (memory : Buffer) (data : Nat) {size : Nat} (word : size < 4294967296)
    (proc : Nat) (m : Mm) :
    (elfLoad memory data size proc).All (ElfAccess.Confined size) m ↔
      (elfHeaderValid (elfView memory data) size = true → proc ≠ 0 →
        SegmentsConfined (elfView memory data) data size
          (List.range (elfPhnum (elfView memory data))) m) := by
  simp only [elfLoad, all_bind, all_ite, all_pure, outcome_checkHeader, all_checkHeader word,
    all_readWord32 word, all_readWord16 word, outcome_readWord32, outcome_readWord16,
    outcome_loadSegments, all_mapStack, true_and, and_true]
  by_cases valid : elfHeaderValid (elfView memory data) size = true
  · have long : 52 ≤ size := by
      simp only [elfHeaderValid, Bool.and_eq_true, decide_eq_true_eq] at valid
      omega
    have inside : ∀ start count, start + count ≤ 52 → Inside size start count :=
      fun start count => inside_header long
    by_cases made : proc = 0
    · simp [valid, made, inside 24 4 (by omega)]
    · rw [← all_loadSegments _ _ word]
      simp only [valid, made, all_elfSections word _ _ long, inside 24 4 (by omega),
        inside 28 4 (by omega), inside 44 2 (by omega), elfPhnum]
      split_ifs <;> simp_all
  · simp [valid]

/-- The loader reads inside the file, and touches only the user pages of each segment, exactly
if every header that it comes to is confined. -/
theorem elf_load_confined_iff (memory : Buffer) (data proc : Nat) (m : Mm) {size : Nat}
    (word : size < 4294967296) :
    (∀ access ∈ (elfLoad memory data size proc m).2, access.Confined size) ↔
      (elfHeaderValid (elfView memory data) size = true → proc ≠ 0 →
        SegmentsConfined (elfView memory data) data size
          (List.range (elfPhnum (elfView memory data))) m) :=
  elfLoad_confined memory data word proc m

/-- A file that ends with its header, which says that a program header follows. -/
def headerOnly : Buffer := putBytes (fun _ => 0) 0xD0000100
  ([0x7F, 0x45, 0x4C, 0x46, 1, 1, 1, 0, 0, 0, 0, 0, 0, 0, 0, 0] ++ le16 2 ++ le16 3 ++ le32 1 ++
    le32 0x08048000 ++ le32 52 ++ le32 0 ++ le32 0 ++ le16 52 ++ le16 32 ++ le16 1 ++ le16 40 ++
    le16 0 ++ le16 0)

def bootedMachine : Mm := bootMm (pmmInit ⟨0, 0⟩ 0x200000) 257 258

theorem elf_load_confined_iff_headerOnly :
    (∀ access ∈ (elfLoad headerOnly 0xD0000100 52 0xD0001000 bootedMachine).2,
        access.Confined 52) ↔
      (elfHeaderValid (elfView headerOnly 0xD0000100) 52 = true → 0xD0001000 ≠ 0 →
        SegmentsConfined (elfView headerOnly 0xD0000100) 0xD0000100 52
          (List.range (elfPhnum (elfView headerOnly 0xD0000100))) bootedMachine) :=
  elf_load_confined_iff headerOnly 0xD0000100 0xD0001000 bootedMachine (by decide)

/-- The program header is read from behind the end of the file. -/
theorem elf_load_reads_past_end :
    ¬ ∀ memory data proc m size, size < 4294967296 →
      ∀ access ∈ (elfLoad memory data size proc m).2, access.Confined size := by
  intro confined
  have valid : elfHeaderValid (elfView headerOnly 0xD0000100) 52 = true := by decide
  have law := (elfLoad_confined headerOnly 0xD0000100 (by decide) 0xD0001000 bootedMachine).mp
    (confined headerOnly 0xD0000100 0xD0001000 bootedMachine 52 (by decide)) valid (by decide)
  rw [show elfPhnum (elfView headerOnly 0xD0000100) = 1 by decide] at law
  have header : Inside 52 (word32 (elfView headerOnly 0xD0000100) 28 + 32 * 0) 4 := law.1
  exact absurd header (by unfold Inside; decide)

end ZurichOS
