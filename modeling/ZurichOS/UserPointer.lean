import ZurichOS.SyscallCore
import ZurichOS.Vmm

/-!
`validate_user_ptr` as it runs, its loop counter being a 32-bit word: it ends, and accepts
exactly the ranges below the kernel whose pages are all mapped.
-/

namespace ZurichOS

open Words

/-- The loop of `validate_user_ptr` from `page` on, if it is over after `fuel` rounds. -/
def validatePages (m : Mm) (endPage : Nat) : (fuel page : Nat) → Option Bool
  | 0, _ => none
  | fuel + 1, page =>
      if page ≤ endPage then
        if vmmIsMapped m page then validatePages m endPage fuel (u32 (page + 0x1000))
        else some false
      else some true

def validateUserPtrRounds (m : Mm) (fuel ptr size : Nat) : Option Bool :=
  if ptr = 0 then some false
  else if 0xC0000000 ≤ ptr then some false
  else if u32 (ptr + size) < ptr then some false
  else if 0xC0000000 ≤ u32 (ptr + size) then some false
  else
    validatePages m (sub32 (u32 (ptr + size)) 1 &&& 0xFFFFF000) fuel (ptr &&& 0xFFFFF000)

/-- The counter stays a word up to a last page below the last one of the address space, so
the loop visits the pages of the range one by one and ends. -/
theorem validatePages_eq (m : Mm) {endPage fuel page : Nat} (last : endPage < 0xFFFFF000)
    (begun : page ≤ endPage + 4096) (enough : endPage + 4096 < page + 4096 * fuel) :
    validatePages m endPage fuel page =
      some ((pageLoop page (endPage + 1)).all (vmmIsMapped m)) := by
  induction fuel generalizing page with
  | zero => omega
  | succ fuel ih =>
      rw [validatePages]
      by_cases more : page ≤ endPage
      · rw [if_pos more, pageLoop_cons (Nat.lt_succ_of_le more), List.all_cons]
        cases mapped : vmmIsMapped m page with
        | false => rfl
        | true =>
            rw [if_pos rfl, u32_eq_of_lt (by omega), ih (by omega) (by omega), Bool.true_and]
      · rw [if_neg more, pageLoop_nil (by omega), List.all_nil]

theorem validateUserPtrRounds_eq (m : Mm) {fuel ptr size : Nat} (size_pos : 0 < size)
    (size_word : size < 4294967296) (enough : 0xC0001 ≤ fuel) :
    validateUserPtrRounds m fuel ptr size = some (validateUserPtr m ptr size) := by
  unfold validateUserPtrRounds validateUserPtr
  by_cases null : ptr = 0
  · rw [if_pos null, if_pos null]
  by_cases kernel : 0xC0000000 ≤ ptr
  · rw [if_neg null, if_neg null, if_pos kernel, if_pos kernel]
  by_cases wraps : u32 (ptr + size) < ptr
  · rw [if_neg null, if_neg null, if_neg kernel, if_neg kernel, if_pos wraps, if_pos wraps]
  by_cases above : 0xC0000000 ≤ u32 (ptr + size)
  · rw [if_neg null, if_neg null, if_neg kernel, if_neg kernel, if_neg wraps, if_neg wraps,
      if_pos above, if_pos above]
  have stop : u32 (ptr + size) = ptr + size := by
    unfold u32 at wraps ⊢
    omega
  rw [stop] at above
  have last : sub32 (ptr + size) 1 = ptr + size - 1 := sub32_eq (by omega) (by omega)
  rw [if_neg null, if_neg null, if_neg kernel, if_neg kernel, if_neg wraps, if_neg wraps, stop,
    if_neg above, if_neg above, last, and_pageMask (by omega), and_pageMask (by omega)]
  exact validatePages_eq m (by omega) (by omega) (by omega)

theorem pageLoop_all_iff {m : Mm} {ptr size : Nat} (size_pos : 0 < size)
    (word : ptr + size < 4294967296) :
    (pageLoop (ptr &&& 0xFFFFF000) (((ptr + size - 1) &&& 0xFFFFF000) + 1)).all (vmmIsMapped m) ↔
      ∀ addr, ptr ≤ addr → addr < ptr + size → vmmIsMapped m (addr &&& 0xFFFFF000) = true := by
  rw [List.all_eq_true, and_pageMask (by omega), and_pageMask (by omega)]
  constructor
  · intro visited addr lower upper
    refine visited _ (mem_pageLoop.mpr ?_)
    rw [and_pageMask (by omega)]
    omega
  · intro mapped page member
    obtain ⟨lower, upper, aligned⟩ := mem_pageLoop.mp member
    -- The first page may begin before the range; the others begin inside it.
    have own := mapped (max ptr page) (by omega) (by omega)
    rwa [and_pageMask (by omega), show max ptr page / 4096 * 4096 = page by omega] at own

/-- `validate_user_ptr` ends, and accepts a range exactly if it does not begin at 0, does not
wrap, ends below the kernel, and every page with a byte of it is mapped. -/
theorem validate_user_ptr_exact (m : Mm) {ptr size : Nat} (ptr_word : ptr < 4294967296)
    (size_word : size < 4294967296) (size_pos : 0 < size) :
    (∃ rounds, ∀ fuel, rounds ≤ fuel →
      validateUserPtrRounds m fuel ptr size = some (validateUserPtr m ptr size)) ∧
    (validateUserPtr m ptr size = true ↔
      ptr ≠ 0 ∧ ptr + size < 4294967296 ∧ ptr + size < 0xC0000000 ∧
        ∀ addr, ptr ≤ addr → addr < ptr + size → vmmIsMapped m (addr &&& 0xFFFFF000) = true) := by
  refine ⟨⟨0xC0001, fun fuel enough => validateUserPtrRounds_eq m size_pos size_word enough⟩, ?_⟩
  unfold validateUserPtr
  by_cases null : ptr = 0
  · simp [null]
  by_cases kernel : 0xC0000000 ≤ ptr
  · rw [if_neg null, if_pos kernel]
    exact ⟨(by cases ·), fun range => by omega⟩
  by_cases wraps : u32 (ptr + size) < ptr
  · rw [if_neg null, if_neg kernel, if_pos wraps]
    refine ⟨(by cases ·), fun range => ?_⟩
    rw [u32_eq_of_lt range.2.1] at wraps
    omega
  have stop : u32 (ptr + size) = ptr + size := by
    unfold u32 at wraps ⊢
    omega
  rw [if_neg null, if_neg kernel, if_neg wraps, stop]
  by_cases above : 0xC0000000 ≤ ptr + size
  · rw [if_pos above]
    exact ⟨(by cases ·), fun range => by omega⟩
  rw [if_neg above, sub32_eq (by omega) (by omega), pageLoop_all_iff size_pos (by omega)]
  exact ⟨fun mapped => ⟨null, by omega, by omega, mapped⟩, fun range => range.2.2.2⟩

def onePage : Mm :=
  vmmMapPage (bootMm (pmmInit ⟨1, 64⟩ 0x100000) 5 6) 0x40000000 0x20000 7

theorem validate_user_ptr_exact_onePage :
    validateUserPtr onePage 0x40000FFC 4 = true ∧ validateUserPtr onePage 0x40000FFD 4 = false := by
  have first := @validate_user_ptr_exact onePage 0x40000FFC 4 (by decide) (by decide) (by decide)
  have next := @validate_user_ptr_exact onePage 0x40000FFD 4 (by decide) (by decide) (by decide)
  constructor
  · refine first.2.mpr ⟨by decide, by decide, by decide, fun addr lower upper => ?_⟩
    rw [and_pageMask (by omega), show addr / 4096 * 4096 = 0x40000000 by omega]
    decide
  · refine Bool.eq_false_iff.mpr fun accepted => ?_
    have mapped := (next.2.mp accepted).2.2.2 0x40001000 (by decide) (by decide)
    exact absurd mapped (by decide)

end ZurichOS
