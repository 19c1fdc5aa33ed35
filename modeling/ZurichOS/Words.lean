import Mathlib.Data.Nat.Bitwise

/-!
Arithmetic of 32-bit machine words, carried by natural numbers below `2 ^ 32`,
and the bounded loops of C code.  The lemmas turn masks and shifts into division
and remainder, so that callers can finish with linear arithmetic.
-/

namespace Words

def u32 (value : Nat) : Nat := value % 4294967296

theorem u32_lt (value : Nat) : u32 value < 4294967296 :=
  Nat.mod_lt _ (by omega)

theorem u32_eq_of_lt {value : Nat} (bound : value < 4294967296) : u32 value = value :=
  Nat.mod_eq_of_lt bound

def sub32 (left right : Nat) : Nat := u32 (left + 4294967296 - right)

theorem sub32_eq {left right : Nat} (order : right ≤ left) (bound : left < 4294967296) :
    sub32 left right = left - right := by
  rw [sub32, u32]
  omega

/-- A word read as a signed `int`. -/
def int32 (value : Nat) : Int :=
  if u32 value < 2147483648 then u32 value else (u32 value : Int) - 4294967296

theorem int32_eq_of_lt {value : Nat} (bound : value < 2147483648) : int32 value = value := by
  rw [int32, u32_eq_of_lt (by omega), if_pos bound]

theorem int32_le (value : Nat) : int32 value ≤ value := by
  unfold int32 u32
  split <;> omega

theorem int32_injective {left right : Nat} (leftWord : left < 4294967296)
    (rightWord : right < 4294967296) (same : int32 left = int32 right) : left = right := by
  simp only [int32, u32_eq_of_lt leftWord, u32_eq_of_lt rightWord] at same
  omega

/-- `((x) + ((align) - 1)) & ~((align) - 1)` on 32-bit words. -/
def alignUp (x align : Nat) : Nat :=
  u32 (x + (align - 1)) &&& (4294967295 - (align - 1))

theorem highMask_eq (bits : Nat) (bound : bits ≤ 32) :
    4294967295 - (2 ^ bits - 1) = (2 ^ (32 - bits) - 1) <<< bits := by
  have split : 2 ^ (32 - bits) * 2 ^ bits = 4294967296 := by
    rw [← Nat.pow_add, Nat.sub_add_cancel bound]
  have positive : 0 < 2 ^ bits := Nat.two_pow_pos bits
  rw [Nat.shiftLeft_eq, Nat.sub_mul, split]
  omega

/-- Masking the low bits off a word rounds it down to a multiple of the power. -/
theorem and_highMask {x : Nat} (bits : Nat) (bits_le : bits ≤ 32) (bound : x < 4294967296) :
    x &&& (4294967295 - (2 ^ bits - 1)) = x / 2 ^ bits * 2 ^ bits := by
  rw [highMask_eq bits bits_le, ← Nat.shiftRight_eq_div_pow, ← Nat.shiftLeft_eq]
  apply Nat.eq_of_testBit_eq
  intro position
  simp only [Nat.testBit_and, Nat.testBit_shiftLeft, Nat.testBit_two_pow_sub_one,
    Nat.testBit_shiftRight]
  by_cases low : bits ≤ position
  · rw [Nat.add_sub_cancel' low]
    by_cases high : position < 32
    · have inside : position - bits < 32 - bits := by omega
      simp [low, inside]
    · have clear : x.testBit position = false := by
        apply Nat.testBit_lt_two_pow
        exact Nat.lt_of_lt_of_le bound (Nat.pow_le_pow_right (n := 2) (by omega)
          (show 32 ≤ position by omega))
      simp [clear]
  · simp [low]

theorem alignUp_pow (x bits : Nat) (bound : bits ≤ 32) :
    alignUp x (2 ^ bits) = u32 (x + (2 ^ bits - 1)) / 2 ^ bits * 2 ^ bits :=
  and_highMask bits bound (u32_lt _)

theorem alignUp_16 (x : Nat) : alignUp x 16 = (x + 15) % 4294967296 / 16 * 16 :=
  alignUp_pow x 4 (by omega)

theorem alignUp_4096 (x : Nat) : alignUp x 4096 = (x + 4095) % 4294967296 / 4096 * 4096 :=
  alignUp_pow x 12 (by omega)

theorem and_pageMask {x : Nat} (bound : x < 4294967296) :
    x &&& 0xFFFFF000 = x / 4096 * 4096 :=
  and_highMask 12 (by omega) bound

theorem and_offsetMask (x : Nat) : x &&& 0xFFF = x % 4096 :=
  Nat.and_two_pow_sub_one_eq_mod x 12

theorem and_indexMask (x : Nat) : x &&& 0x3FF = x % 1024 :=
  Nat.and_two_pow_sub_one_eq_mod x 10

theorem page_or (page low : Nat) (bound : low < 4096) :
    page * 4096 ||| low = page * 4096 + low := by
  rw [Nat.mul_comm]
  exact (Nat.two_pow_add_eq_or_of_lt (i := 12) bound page).symm

/-- A loop over `0 .. count - 1` that returns from its body stops at the first index
whose body returns. -/
theorem findSome_range_eq_some {α : Type} (body : Nat → Option α) (count : Nat) (result : α) :
    (List.range count).findSome? body = some result ↔
      ∃ index < count, body index = some result ∧ ∀ earlier < index, body earlier = none := by
  induction count with
  | zero => simp
  | succ count ih =>
      rw [List.range_succ, List.findSome?_append, Option.or_eq_some_iff, ih]
      simp only [List.findSome?_cons, List.findSome?_nil]
      constructor
      · rintro (⟨index, below, returned, quiet⟩ | ⟨none, last⟩)
        · exact ⟨index, by omega, returned, quiet⟩
        · refine ⟨count, by omega, ?_, ?_⟩
          · cases found : body count <;> simp_all
          · intro earlier below
            exact List.findSome?_eq_none_iff.mp none earlier (List.mem_range.mpr below)
      · rintro ⟨index, below, returned, quiet⟩
        by_cases last : index = count
        · subst last
          refine Or.inr ⟨?_, by simp [returned]⟩
          exact List.findSome?_eq_none_iff.mpr fun earlier member =>
            quiet earlier (List.mem_range.mp member)
        · exact Or.inl ⟨index, by omega, returned, quiet⟩

theorem findSome_range_eq_none {α : Type} (body : Nat → Option α) (count : Nat) :
    (List.range count).findSome? body = none ↔ ∀ index < count, body index = none := by
  simp [List.findSome?_eq_none_iff]

/-- The addresses visited by `for (addr = start; addr < stop; addr += 0x1000)`. -/
def pageLoop (start stop : Nat) : List Nat :=
  (List.range ((stop - start + 4095) / 4096)).map fun step => start + 4096 * step

theorem mem_pageLoop {start stop addr : Nat} :
    addr ∈ pageLoop start stop ↔
      start ≤ addr ∧ addr < stop ∧ (addr - start) % 4096 = 0 := by
  simp only [pageLoop, List.mem_map, List.mem_range]
  constructor
  · rintro ⟨step, below, rfl⟩
    omega
  · rintro ⟨lower, upper, aligned⟩
    exact ⟨(addr - start) / 4096, by omega, by omega⟩

theorem pageLoop_nil {start stop : Nat} (done : stop ≤ start) : pageLoop start stop = [] := by
  simp [pageLoop, Nat.sub_eq_zero_of_le done]

theorem pageLoop_cons {start stop : Nat} (more : start < stop) :
    pageLoop start stop = start :: pageLoop (start + 4096) stop := by
  have count : (stop - start + 4095) / 4096 = (stop - (start + 4096) + 4095) / 4096 + 1 := by
    omega
  simp only [pageLoop, count, List.range_succ_eq_map, List.map_cons, List.map_map]
  congr 1
  apply List.map_congr_left
  intro step _
  simp only [Function.comp_apply]
  omega

/-- The pages before one of the loop are those of the loop that stops there. -/
theorem pageLoop_prefix {start stop page : Nat} {front rest : List Nat}
    (shape : pageLoop start stop = front ++ page :: rest) : pageLoop start page = front := by
  obtain ⟨before, after, whole, rfl, tail⟩ := List.map_eq_append_iff.mp shape
  rw [List.range_eq_range'] at whole
  obtain ⟨count, _, rfl, rfl⟩ := List.range'_eq_append_iff.mp whole
  obtain ⟨step, _, first, rfl, _⟩ := List.map_eq_cons_iff.mp tail
  obtain ⟨rfl, _⟩ := List.range'_eq_cons_iff.mp first
  rw [pageLoop, List.range_eq_range',
    show (start + 4096 * (0 + count * 1) - start + 4095) / 4096 = count by omega]

end Words
