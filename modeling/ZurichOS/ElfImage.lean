import ZurichOS.PageRounds

/-!
What a successful program load has put into memory.  Each segment is given frames for all its
pages, also for those that an earlier segment has already filled.
-/

namespace ZurichOS

open Words ByteBuffer Mm

/-- A loadable segment has no more bytes in the file than in memory and ends in the user half. -/
structure ElfPhdr.WellFormed (phdr : ElfPhdr) : Prop where
  sizes : phdr.filesz ≤ phdr.memsz
  user : phdr.vaddr + phdr.memsz ≤ 0xC0000000

instance (phdr : ElfPhdr) : Decidable phdr.WellFormed :=
  decidable_of_iff (phdr.filesz ≤ phdr.memsz ∧ phdr.vaddr + phdr.memsz ≤ 0xC0000000)
    ⟨fun both => ⟨both.1, both.2⟩, fun formed => ⟨formed.sizes, formed.user⟩⟩

/-- The bytes of the file, and zeros up to the size in memory. -/
def ElfPhdr.byte (data : Buffer) (phdr : ElfPhdr) (i : Nat) : Nat :=
  if i < phdr.filesz then (data (phdr.offset + i)).toNat else 0

def SegmentHeld (m : Mm) (data : Buffer) (phdr : ElfPhdr) : Prop :=
  ∀ i < phdr.memsz, vmmIsMapped m (phdr.vaddr + i) = true ∧
    m.byteAt (phdr.vaddr + i) = phdr.byte data i

/-- Every segment is in memory, and what the load took from the free frames is in use as a page
table or by a user page. -/
structure ImageLoaded (m after : Mm) (data : Buffer) : Prop where
  segments : ∀ index < elfPhnum data, (elfPhdr data index).type = ptLoad →
    SegmentHeld after data (elfPhdr data index)
  frames : NoneLost m after

/-- The pages that a load maps for the segments, one after the other. -/
def segmentPages (data : Buffer) (indices : List Nat) : List Nat :=
  indices.flatMap fun index =>
    if (elfPhdr data index).type = ptLoad then (elfPhdr data index).pages else []

/-- No page is in two segments, or in a segment and the stack. -/
def PagesApart (data : Buffer) : Prop :=
  (segmentPages data (List.range (elfPhnum data)) ++ elfStackPages).Nodup

instance (data : Buffer) : Decidable (PagesApart data) := inferInstanceAs (Decidable (List.Nodup _))

section Segment

variable {phdr : ElfPhdr} {m now : Mm} {done : List Nat} {addr : Nat}

theorem ElfPhdr.WellFormed.pages (wellFormed : phdr.WellFormed) :
    ∀ page ∈ phdr.pages, page % 4096 = 0 ∧ page < 0xC0000000 := by
  intro page member
  have user := wellFormed.user
  rw [ElfPhdr.pages, mem_pageLoop, and_pageMask (by omega), u32_eq_of_lt (by omega),
    and_pageMask (by omega)] at member
  omega

theorem ElfPhdr.WellFormed.page_mem (wellFormed : phdr.WellFormed) (first : phdr.vaddr ≤ addr)
    (last : addr < phdr.vaddr + phdr.memsz) : addr / 4096 * 4096 ∈ phdr.pages := by
  have user := wellFormed.user
  rw [ElfPhdr.pages, mem_pageLoop, and_pageMask (by omega), u32_eq_of_lt (by omega),
    and_pageMask (by omega)]
  omega

theorem pageOf_base (word : addr < 4294967296) : pageOf addr = pageOf (addr / 4096 * 4096) := by
  rw [pageOf_word word, pageOf_word (by omega)]
  omega

theorem elfCopySegment_bytes (guarded : m.Guarded) (data : Buffer) (wellFormed : phdr.WellFormed)
    (sole : ∀ i < phdr.memsz, m.SolePage (phdr.vaddr + i)) :
    SameFrames m (elfCopySegment data phdr m) ∧ ∀ addr < 0xC0000000, m.Present addr →
      (elfCopySegment data phdr m).byteAt addr =
        if phdr.vaddr ≤ addr ∧ addr < phdr.vaddr + phdr.memsz then
          phdr.byte data (addr - phdr.vaddr)
        else m.byteAt addr := by
  obtain ⟨sizes, user⟩ := wellFormed
  unfold elfCopySegment
  generalize fileByte : (fun i => (data (phdr.offset + i)).toNat) = value
  have valueEq : ∀ i, (data (phdr.offset + i)).toNat = value i := fun i => by rw [← fileByte]
  have fileSole : ∀ i < phdr.filesz, m.SolePage (phdr.vaddr + i) := fun i below =>
    sole i (by omega)
  have copied := guarded.setBytes phdr.vaddr phdr.filesz value fun i below => by
    rw [u32_eq_of_lt (by omega)]
    exact fun _ => (fileSole i below).fresh
  have small : ∀ i < phdr.filesz, value i < 256 := fun i _ => valueEq i ▸ UInt8.toNat_lt _
  have fileBytes : ∀ addr < 0xC0000000, m.Present addr → _ := fun addr inside mapped =>
    guarded.setBytes_byteAt small (by omega) fileSole inside mapped
  simp only [ElfPhdr.byte, valueEq]
  split
  · have rest := copied.guarded guarded
    have restSole : ∀ i < phdr.memsz - phdr.filesz,
        (m.setBytes phdr.vaddr phdr.filesz value).SolePage (phdr.vaddr + phdr.filesz + i) := by
      intro i below
      rw [Nat.add_assoc]
      exact copied.sole (sole (phdr.filesz + i) (by omega))
    rw [u32_eq_of_lt (by omega)]
    have cleared := rest.setBytes (phdr.vaddr + phdr.filesz) (phdr.memsz - phdr.filesz)
      (fun _ => 0) fun i below => by
        rw [u32_eq_of_lt (by omega)]
        exact fun _ => (restSole i below).fresh
    refine ⟨copied.trans cleared, fun addr inside mapped => ?_⟩
    rw [rest.setBytes_byteAt (fun _ _ => by decide) (by omega) restSole inside
      (by rwa [Present, copied.entry]), fileBytes addr inside mapped]
    grind -ring -linarith
  · refine ⟨copied, fun addr inside mapped => ?_⟩
    rw [fileBytes addr inside mapped]
    grind -ring -linarith

theorem SegmentHeld.keeps {after : Mm} {data : Buffer} (held : SegmentHeld m data phdr)
    (sound : m.TablesSound) (soundAfter : after.TablesSound) (wellFormed : phdr.WellFormed)
    {pages : List Nat} (bytes : KeepsBytes m after pages)
    (apart : ∀ page ∈ phdr.pages, ∀ other ∈ pages, pageOf page ≠ pageOf other) :
    SegmentHeld after data phdr := by
  intro i below
  have user := wellFormed.user
  obtain ⟨mapped, value⟩ := held i below
  rw [vmmIsMapped_iff sound] at mapped
  obtain ⟨still, same⟩ := bytes _ (by omega) (fun other member => by
    rw [pageOf_base (by omega)]
    exact apart _ (wellFormed.page_mem (by omega) (by omega)) other member) mapped
  rw [vmmIsMapped_iff soundAfter, same]
  exact ⟨still, value⟩

theorem Mm.Loaded.copy (loaded : Loaded m now done) (data : Buffer) (wellFormed : phdr.WellFormed)
    (given : ∀ page ∈ phdr.pages, page ∈ done) :
    Loaded m (elfCopySegment data phdr now) done ∧
      KeepsBytes now (elfCopySegment data phdr now) phdr.pages ∧
      SegmentHeld (elfCopySegment data phdr now) data phdr := by
  have user := wellFormed.user
  have sole : ∀ i < phdr.memsz, now.SolePage (phdr.vaddr + i) := fun i below =>
    (loaded.sole _ (given _ (wellFormed.page_mem (by omega) (by omega)))).1.congr
      (pageOf_base (by omega))
  obtain ⟨same, bytes⟩ := elfCopySegment_bytes loaded.kept.guarded data wellFormed sole
  refine ⟨loaded.same same, fun addr inside apart present => ⟨?_, ?_⟩, fun i below => ⟨?_, ?_⟩⟩
  · rwa [Present, same.entry]
  · rw [bytes addr inside present, if_neg]
    rintro ⟨first, last⟩
    exact apart _ (wellFormed.page_mem first last) (pageOf_base (by omega))
  · rw [vmmIsMapped_iff (same.guarded loaded.kept.guarded).toTablesSound, same.entry]
    exact (sole i below).present
  · rw [bytes _ (by omega) (sole i below).present, if_pos (by omega), Nat.add_sub_cancel_left]

end Segment

section Load

variable {m now : Mm} {done : List Nat} {data : Buffer}

theorem segmentPages_load {index : Nat} (load : (elfPhdr data index).type = ptLoad)
    (rest : List Nat) : segmentPages data (index :: rest) =
      (elfPhdr data index).pages ++ segmentPages data rest := by
  rw [segmentPages, List.flatMap_cons, if_pos load]
  rfl

theorem segmentPages_skip {index : Nat} (other : (elfPhdr data index).type ≠ ptLoad)
    (rest : List Nat) : segmentPages data (index :: rest) = segmentPages data rest := by
  rw [segmentPages, List.flatMap_cons, if_neg other]
  rfl

theorem elfStackPages_inside : ∀ page ∈ elfStackPages, page % 4096 = 0 ∧ page < 0xC0000000 := by
  decide

/-- The stack needs one table for all its pages, so the last of them is mapped too. -/
theorem Mm.Loaded.mapStack (loaded : Loaded m now done)
    (users : ∀ virt < 0xC0000000, m.Maps virt m.Harmless)
    (success : (elfMapPages elfStackPages now).1 = true) :
    Loaded m (elfMapPages elfStackPages now).2 (done ++ elfStackPages) ∧
      KeepsBytes now (elfMapPages elfStackPages now).2 elfStackPages := by
  rcases loaded.mapPages users elfStackPages_inside success with
    mapped | ⟨_, front, last, shape, apart⟩
  · exact mapped
  · exfalso
    have table : ∀ page ∈ elfStackPages, pdIndex page = 767 := by decide
    have several : 1 < elfStackPages.length := by decide
    rw [shape] at table several
    obtain ⟨page, rest, rfl⟩ := List.exists_cons_of_ne_nil (l := front) (by
      rintro rfl
      simp at several)
    exact apart page (by simp) ((table page (by simp)).trans (table last (by simp)).symm)

theorem Mm.Loaded.loadSegment {phdr : ElfPhdr} (loaded : Loaded m now done)
    (users : ∀ virt < 0xC0000000, m.Maps virt m.Harmless) (data : Buffer)
    (wellFormed : phdr.WellFormed) (mapped : (elfMapPages phdr.pages now).1 = true) :
    (Loaded m (elfCopySegment data phdr (elfMapPages phdr.pages now).2) (done ++ phdr.pages) ∧
      KeepsBytes now (elfCopySegment data phdr (elfMapPages phdr.pages now).2) phdr.pages ∧
      SegmentHeld (elfCopySegment data phdr (elfMapPages phdr.pages now).2) data phdr) ∨
    NoFrame (elfCopySegment data phdr (elfMapPages phdr.pages now).2).pmm := by
  rcases loaded.mapPages users wellFormed.pages mapped with ⟨placed, placedBytes⟩ | ⟨dry, _⟩
  · obtain ⟨copied, copiedBytes, held⟩ := placed.copy data wellFormed fun page own =>
      List.mem_append_right done own
    refine .inl ⟨copied, (placedBytes.trans copiedBytes).mono fun page member => ?_, held⟩
    exact (List.mem_append.mp member).elim id id
  · exact .inr (by rwa [elfCopySegment_pmm])

theorem Mm.Loaded.loadPages {indices : List Nat} (loaded : Loaded m now done)
    (users : ∀ virt < 0xC0000000, m.Maps virt m.Harmless)
    (wellFormed : ∀ index ∈ indices, (elfPhdr data index).type = ptLoad →
      (elfPhdr data index).WellFormed)
    (success : (elfLoadPages data indices now).1 = true) :
    Loaded m (elfLoadPages data indices now).2
      (done ++ (segmentPages data indices ++ elfStackPages)) ∧
    KeepsBytes now (elfLoadPages data indices now).2
      (segmentPages data indices ++ elfStackPages) ∧
    ((segmentPages data indices ++ elfStackPages).Nodup → ∀ index ∈ indices,
      (elfPhdr data index).type = ptLoad →
        SegmentHeld (elfLoadPages data indices now).2 data (elfPhdr data index)) := by
  induction indices generalizing now done with
  | nil =>
      obtain ⟨stack, bytes⟩ := loaded.mapStack users success
      exact ⟨stack, bytes, by simp⟩
  | cons index rest ih =>
      have later := fun other member => wellFormed other (List.mem_cons_of_mem index member)
      rw [elfLoadPages_cons] at success ⊢
      by_cases load : (elfPhdr data index).type = ptLoad
      · rw [if_pos load] at success ⊢
        rw [segmentPages_load load, List.append_assoc, ← List.append_assoc done]
        have formed := wellFormed index (by simp) load
        dsimp only at success ⊢
        have mapped : (elfMapPages (elfPhdr data index).pages now).1 = true := by
          by_contra failed
          rw [if_neg failed] at success
          exact failed success
        rw [if_pos mapped] at success ⊢
        rcases loaded.loadSegment users data formed mapped with ⟨copied, copiedBytes, held⟩ | dry
        · obtain ⟨whole, bytes, others⟩ := ih copied later success
          refine ⟨whole, copiedBytes.trans bytes, fun once other member isLoad => ?_⟩
          obtain ⟨_, restOnce, apart⟩ := List.nodup_append.mp once
          rcases List.mem_cons.mp member with rfl | isLater
          · refine held.keeps copied.kept.guarded.toTablesSound
              whole.kept.guarded.toTablesSound formed bytes fun page own other foreign same => ?_
            obtain ⟨aligned, user⟩ := formed.pages page own
            obtain ⟨otherAligned, otherUser⟩ := whole.pages other (List.mem_append_right _ foreign)
            exact apart page own other foreign
              (eq_of_pageOf (by omega) (by omega) aligned otherAligned same)
          · exact others restOnce other isLater isLoad
        · rw [elfLoadPages_dry dry] at success
          cases success
      · rw [if_neg load] at success ⊢
        rw [segmentPages_skip load]
        obtain ⟨whole, bytes, others⟩ := ih loaded later success
        refine ⟨whole, bytes, fun once other member isLoad => ?_⟩
        rcases List.mem_cons.mp member with rfl | isLater
        · exact absurd isLoad load
        · exact others once other isLater isLoad

theorem elfLoadFromMemory_success {size proc process : Nat}
    (success : (elfLoadFromMemory m data size proc).1 = some process) :
    (elfLoadPages data (List.range (elfPhnum data)) m).1 = true ∧
      (elfLoadFromMemory m data size proc).2 =
        (elfLoadPages data (List.range (elfPhnum data)) m).2 := by
  unfold elfLoadFromMemory at success ⊢
  unfold elfLoadPages
  by_cases valid : elfHeaderValid data size = true
  · by_cases made : proc = 0
    · simp [valid, made] at success
    · simp only [valid, Bool.not_true, Bool.false_eq_true, if_false, made] at success ⊢
      split at success
      · rename_i loaded
        split at success
        · rename_i mapped
          simp [loaded, mapped]
        · cases success
      · cases success
  · simp [valid] at success

theorem elfLoadFromMemory_loaded (guarded : m.Guarded) (accounted : m.pmm.Accounted)
    (users : ∀ virt < 0xC0000000, m.Maps virt m.Harmless) {size proc process : Nat}
    (wellFormed : ∀ index < elfPhnum data, (elfPhdr data index).type = ptLoad →
      (elfPhdr data index).WellFormed)
    (success : (elfLoadFromMemory m data size proc).1 = some process) :
    Loaded m (elfLoadFromMemory m data size proc).2
        (segmentPages data (List.range (elfPhnum data)) ++ elfStackPages) ∧
      (PagesApart data → ∀ index < elfPhnum data, (elfPhdr data index).type = ptLoad →
        SegmentHeld (elfLoadFromMemory m data size proc).2 data (elfPhdr data index)) := by
  have kept : ReservedKept 0 m := ⟨guarded, accounted, by simp, fun _ _ _ => Nat.zero_le _⟩
  have start : Loaded m m [] := ⟨.start kept users, fun _ => .start m, by simp⟩
  obtain ⟨loads, after⟩ := elfLoadFromMemory_success success
  obtain ⟨loaded, _, held⟩ := start.loadPages users
    (fun index member => wellFormed index (List.mem_range.mp member)) loads
  rw [after]
  exact ⟨loaded, fun once index below => held once index (List.mem_range.mpr below)⟩

end Load

/-- A loaded image is whole and nothing is lost exactly if no page is in two segments, or in a
segment and the stack. -/
theorem elf_image_loaded_iff (m : Mm) (guarded : m.Guarded) (accounted : m.pmm.Accounted)
    (users : ∀ virt < 0xC0000000, m.Maps virt m.Harmless) (data : Buffer) (size proc : Nat)
    (wellFormed : ∀ index < elfPhnum data, (elfPhdr data index).type = ptLoad →
      (elfPhdr data index).WellFormed)
    {process : Nat} (success : (elfLoadFromMemory m data size proc).1 = some process) :
    ImageLoaded m (elfLoadFromMemory m data size proc).2 data ↔ PagesApart data := by
  obtain ⟨loaded, held⟩ := elfLoadFromMemory_loaded guarded accounted users wellFormed success
  constructor
  · intro image
    by_contra twice
    exact (loaded.lost twice).not_noneLost image.frames
  · exact fun once => ⟨held once, loaded.none once⟩

def byteSegment (vaddr : Nat) : List UInt8 :=
  le32 1 ++ le32 0 ++ le32 vaddr ++ le32 vaddr ++ le32 1 ++ le32 1 ++ le32 7 ++ le32 0x1000

def twoBytes (first second : Nat) : Buffer := putBytes (fun _ => 0) 0
  ([0x7F, 0x45, 0x4C, 0x46, 1, 1, 1, 0, 0, 0, 0, 0, 0, 0, 0, 0] ++ le16 2 ++ le16 3 ++ le32 1 ++
    le32 first ++ le32 52 ++ le32 0 ++ le32 0 ++ le16 52 ++ le16 32 ++ le16 2 ++ le16 40 ++
    le16 0 ++ le16 0 ++ byteSegment first ++ byteSegment second)

def loaderMm : Mm := bootMm (pmmInit ⟨1, 128⟩ 0x100000) 5 6

theorem loaderMm_guarded : loaderMm.Guarded :=
  bootMm_guarded (by decide) (by decide) (by decide) (by decide) (by decide) (by decide)

theorem loaderMm_users : ∀ virt < 0xC0000000, loaderMm.Maps virt loaderMm.Harmless := by
  intro virt user present
  rcases bootMm_slots _ (by decide) (by decide) (hasTable_of_mapped present) with
    ⟨index, _⟩ | ⟨index, _⟩
  · exact absurd index (user_ne_recursive user)
  · have := pdIndex_user user
    omega

theorem elf_image_loaded_iff_twoBytes :
    ImageLoaded loaderMm
        (elfLoadFromMemory loaderMm (twoBytes 0x08048000 0x08049000) 116 0xD0001000).2
        (twoBytes 0x08048000 0x08049000) ↔ PagesApart (twoBytes 0x08048000 0x08049000) := by
  have loads : (elfLoadFromMemory loaderMm (twoBytes 0x08048000 0x08049000) 116 0xD0001000).1 =
      some 0xD0001000 := by decide +kernel
  exact elf_image_loaded_iff loaderMm loaderMm_guarded (pmmInit_accounted _ _) loaderMm_users
    _ 116 0xD0001000 (by decide) loads

def SegmentsDisjoint (data : Buffer) : Prop :=
  ∀ first < elfPhnum data, ∀ second < elfPhnum data, first ≠ second →
    (elfPhdr data first).type = ptLoad → (elfPhdr data second).type = ptLoad →
    (elfPhdr data first).vaddr + (elfPhdr data first).memsz ≤ (elfPhdr data second).vaddr ∨
      (elfPhdr data second).vaddr + (elfPhdr data second).memsz ≤ (elfPhdr data first).vaddr

/-- The page of two segments gets a second frame, and the first one is lost. -/
theorem elf_load_loses_frame :
    ¬ ∀ m : Mm, m.Guarded → m.pmm.Accounted →
      (∀ virt < 0xC0000000, m.Maps virt m.Harmless) → ∀ data size proc process,
      (∀ index < elfPhnum data, (elfPhdr data index).type = ptLoad →
        (elfPhdr data index).WellFormed) → SegmentsDisjoint data →
      (elfLoadFromMemory m data size proc).1 = some process →
      ImageLoaded m (elfLoadFromMemory m data size proc).2 data := by
  intro image
  have loads : (elfLoadFromMemory loaderMm (twoBytes 0x08048000 0x08048001) 116 0xD0001000).1 =
      some 0xD0001000 := by decide +kernel
  have formed : ∀ index < elfPhnum (twoBytes 0x08048000 0x08048001),
      (elfPhdr (twoBytes 0x08048000 0x08048001) index).type = ptLoad →
        (elfPhdr (twoBytes 0x08048000 0x08048001) index).WellFormed := by decide +kernel
  have places : ∀ index < elfPhnum (twoBytes 0x08048000 0x08048001),
      (elfPhdr (twoBytes 0x08048000 0x08048001) index).vaddr = 0x08048000 + index ∧
        (elfPhdr (twoBytes 0x08048000 0x08048001) index).memsz = 1 := by decide +kernel
  have apart : SegmentsDisjoint (twoBytes 0x08048000 0x08048001) := by
    intro first firstBound second secondBound distinct _ _
    obtain ⟨firstPlace, firstSize⟩ := places first firstBound
    obtain ⟨secondPlace, secondSize⟩ := places second secondBound
    omega
  have whole := image loaderMm loaderMm_guarded (pmmInit_accounted _ _) loaderMm_users _ _ _ _
    formed apart loads
  have shared : ¬ PagesApart (twoBytes 0x08048000 0x08048001) := by decide +kernel
  exact ((elfLoadFromMemory_loaded loaderMm_guarded (pmmInit_accounted _ _) loaderMm_users formed
    loads).1.lost shared).not_noneLost whole.frames

end ZurichOS
