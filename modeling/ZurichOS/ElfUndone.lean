import ZurichOS.ElfCore
import ZurichOS.UserMemory

/-!
What a program load that runs out of memory leaves behind.  `elf_load_from_memory` gives no
frame back, so every frame it has allocated stays allocated.
-/

namespace ZurichOS

open Words ByteBuffer Mm

/-- The frames that were free are free again, and every page maps what it mapped before. -/
structure LoadUndone (m after : Mm) : Prop where
  frames : ∀ frame, after.pmm.bitmapTest frame = m.pmm.bitmapTest frame
  pages : ∀ virt, after.mapping virt = m.mapping virt

/-- There is no frame for `pmm_alloc_frame` to take. -/
def NoFrame (pmm : Pmm) : Prop := pmmAllocFrame pmm = (0, pmm)

/-- The memory where the first page is asked for.  Segments before it that have bytes but no
pages write them to whatever is mapped there. -/
def elfBareSegments (data : Buffer) : List Nat → Mm → Mm
  | [], m => m
  | index :: rest, m =>
      let phdr := elfPhdr data index
      if phdr.type = ptLoad then
        if phdr.pages = [] then elfBareSegments data rest (elfCopySegment data phdr m) else m
      else elfBareSegments data rest m

section Load

variable {m : Mm} {frame : Nat}

theorem setByte_pmm (m : Mm) (virt value : Nat) : (m.setByte virt value).pmm = m.pmm := by
  unfold Mm.setByte
  split <;> rfl

theorem setBytes_pmm (m : Mm) (start count : Nat) (value : Nat → Nat) :
    (m.setBytes start count value).pmm = m.pmm := by
  unfold Mm.setBytes
  induction List.range count generalizing m with
  | nil => rfl
  | cons i rest ih => rw [List.foldl_cons, ih, setByte_pmm]

theorem elfCopySegment_pmm (data : Buffer) (phdr : ElfPhdr) (m : Mm) :
    (elfCopySegment data phdr m).pmm = m.pmm := by
  unfold elfCopySegment
  dsimp only
  split
  · rw [setBytes_pmm, setBytes_pmm]
  · exact setBytes_pmm _ _ _ _

theorem elfBareSegments_pmm (data : Buffer) (indices : List Nat) (m : Mm) :
    (elfBareSegments data indices m).pmm = m.pmm := by
  induction indices generalizing m with
  | nil => rfl
  | cons index rest ih =>
      simp only [elfBareSegments]
      split_ifs
      · rw [ih, elfCopySegment_pmm]
      · rfl
      · exact ih m

theorem elfMapPages_keeps (used : m.pmm.bitmapTest frame = true) (pages : List Nat) :
    (elfMapPages pages m).2.pmm.bitmapTest frame = true := by
  induction pages generalizing m with
  | nil => exact used
  | cons page rest ih =>
      simp only [elfMapPages]
      split
      · exact allocFrame_keeps used
      · refine ih (vmmMapPage_keeps ?_ _ _ _)
        exact allocFrame_keeps used

theorem elfLoadSegments_keeps (used : m.pmm.bitmapTest frame = true) (data : Buffer)
    (indices : List Nat) : (elfLoadSegments data indices m).2.pmm.bitmapTest frame = true := by
  induction indices generalizing m with
  | nil => exact used
  | cons index rest ih =>
      simp only [elfLoadSegments]
      split
      · have mapped := elfMapPages_keeps used (elfPhdr data index).pages
        split
        · exact ih (by rwa [elfCopySegment_pmm])
        · exact mapped
      · exact ih used

/-- The load behind the checks of the header. -/
def elfLoadPages (data : Buffer) (indices : List Nat) (m : Mm) : Bool × Mm :=
  let loaded := elfLoadSegments data indices m
  if loaded.1 then elfMapPages elfStackPages loaded.2 else loaded

theorem elfLoadPages_keeps (used : m.pmm.bitmapTest frame = true) (data : Buffer)
    (indices : List Nat) : (elfLoadPages data indices m).2.pmm.bitmapTest frame = true := by
  have loaded := elfLoadSegments_keeps used data indices
  unfold elfLoadPages
  dsimp only
  split
  · exact elfMapPages_keeps loaded _
  · exact loaded

theorem elfLoadPages_cons (data : Buffer) (index : Nat) (rest : List Nat) (m : Mm) :
    elfLoadPages data (index :: rest) m =
      if (elfPhdr data index).type = ptLoad then
        let mapped := elfMapPages (elfPhdr data index).pages m
        if mapped.1 then elfLoadPages data rest (elfCopySegment data (elfPhdr data index) mapped.2)
        else mapped
      else elfLoadPages data rest m := by
  simp only [elfLoadPages, elfLoadSegments]
  split
  · split
    · rfl
    · rfl
  · rfl

theorem elfStackPages_ne_nil : elfStackPages ≠ [] := by
  rw [elfStackPages, pageLoop_cons (by decide)]
  exact List.cons_ne_nil _ _

theorem elfMapPages_dry (none : NoFrame m.pmm) {pages : List Nat} (some : pages ≠ []) :
    elfMapPages pages m = (false, m) := by
  obtain ⟨page, rest, rfl⟩ := List.exists_cons_of_ne_nil some
  simp only [elfMapPages, show pmmAllocFrame m.pmm = (0, m.pmm) from none, if_true]

theorem elfMapPages_takes (taken : (pmmAllocFrame m.pmm).2.bitmapTest frame = true)
    {pages : List Nat} (some : pages ≠ []) :
    (elfMapPages pages m).2.pmm.bitmapTest frame = true := by
  obtain ⟨page, rest, rfl⟩ := List.exists_cons_of_ne_nil some
  simp only [elfMapPages]
  split
  · exact taken
  · refine elfMapPages_keeps (vmmMapPage_keeps ?_ _ _ _) rest
    exact taken

/-- Where no frame can be had, nothing but the bare segments is done. -/
theorem elfLoadPages_dry (none : NoFrame m.pmm) (data : Buffer) (indices : List Nat) :
    elfLoadPages data indices m = (false, elfBareSegments data indices m) := by
  induction indices generalizing m with
  | nil => exact elfMapPages_dry none elfStackPages_ne_nil
  | cons index rest ih =>
      rw [elfLoadPages_cons, elfBareSegments]
      dsimp only
      split
      · by_cases bare : (elfPhdr data index).pages = []
        · rw [if_pos bare, bare, elfMapPages, if_pos rfl]
          exact ih (by rwa [elfCopySegment_pmm])
        · rw [if_neg bare, elfMapPages_dry none bare, if_neg Bool.false_ne_true]
      · exact ih none

theorem elfLoadPages_takes (taken : (pmmAllocFrame m.pmm).2.bitmapTest frame = true)
    (data : Buffer) (indices : List Nat) :
    (elfLoadPages data indices m).2.pmm.bitmapTest frame = true := by
  induction indices generalizing m with
  | nil => exact elfMapPages_takes taken elfStackPages_ne_nil
  | cons index rest ih =>
      rw [elfLoadPages_cons]
      dsimp only
      split
      · by_cases bare : (elfPhdr data index).pages = []
        · rw [bare, elfMapPages, if_pos rfl]
          exact ih (by rwa [elfCopySegment_pmm])
        · have mapped := elfMapPages_takes taken bare
          split
          · exact elfLoadPages_keeps (by rwa [elfCopySegment_pmm]) data rest
          · exact mapped
      · exact ih taken

theorem elfLoadFromMemory_pages (data : Buffer) {size proc : Nat}
    (valid : elfHeaderValid data size = true) (made : proc ≠ 0) (m : Mm) :
    (elfLoadFromMemory m data size proc).2 =
      (elfLoadPages data (List.range (elfPhnum data)) m).2 := by
  unfold elfLoadFromMemory elfLoadPages
  rw [if_neg (by simp [valid]), if_neg made]
  dsimp only
  split <;> rfl

end Load

def stackOnly : Buffer := putBytes (fun _ => 0) 0
  ([0x7F, 0x45, 0x4C, 0x46, 1, 1, 1, 0, 0, 0, 0, 0, 0, 0, 0, 0] ++ le16 2 ++ le16 3)

end ZurichOS
