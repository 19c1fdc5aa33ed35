import ZurichOS.UserPointer

/-!
`validate_user_string`, with the addresses it reads.  It asks for a page when the walk comes
to the page's first byte, so the page that a string begins inside is never asked for.
-/

namespace ZurichOS

open Words

/-- The rounds of `validate_user_string` from `i` on. -/
def validateBytes (m : Mm) (memory : Nat → Nat) (ptr : Nat) : (rounds i : Nat) → Bool × List Nat
  | 0, _ => (false, [])
  | rounds + 1, i =>
      let addr := u32 (ptr + i)
      if 0xC0000000 ≤ addr then (false, [])
      else if addr &&& 0xFFF = 0 ∧ vmmIsMapped m (addr &&& 0xFFFFF000) = false then (false, [])
      else if memory addr = 0 then (true, [addr])
      else
        let rest := validateBytes m memory ptr rounds (i + 1)
        (rest.1, addr :: rest.2)

def validateUserString (m : Mm) (memory : Nat → Nat) (ptr maxLen : Nat) : Bool × List Nat :=
  if ptr = 0 then (false, [])
  else if 0xC0000000 ≤ ptr then (false, [])
  else validateBytes m memory ptr maxLen 0

/-- A byte that the kernel may read for a user program. -/
def Readable (m : Mm) (addr : Nat) : Prop :=
  addr < 0xC0000000 ∧ vmmIsMapped m (addr &&& 0xFFFFF000) = true

/-- The first NUL from `ptr` on is among the next `maxLen` bytes, and the bytes up to it can
be read. -/
def StringWithin (m : Mm) (memory : Nat → Nat) (ptr maxLen : Nat) : Prop :=
  ∃ length < maxLen, memory (ptr + length) = 0 ∧ (∀ i < length, memory (ptr + i) ≠ 0) ∧
    ∀ i ≤ length, Readable m (ptr + i)

structure StringCheck (m : Mm) (memory : Nat → Nat) (ptr maxLen : Nat) : Prop where
  reads : ∀ addr ∈ (validateUserString m memory ptr maxLen).2, Readable m addr
  result : (validateUserString m memory ptr maxLen).1 = true ↔ StringWithin m memory ptr maxLen

/-- No string lies at the null pointer, and a string that begins inside a page of the user
half begins in a mapped one. -/
structure StringCareful (m : Mm) (memory : Nat → Nat) (ptr maxLen : Nat) : Prop where
  null : ptr = 0 → ¬ StringWithin m memory ptr maxLen
  firstPage : 0 < maxLen → ptr < 0xC0000000 → ptr % 4096 ≠ 0 →
    vmmIsMapped m (ptr &&& 0xFFFFF000) = true

section Walk

variable {m : Mm} {memory : Nat → Nat} {ptr addr rounds i : Nat}

theorem stringWithin_succ :
    StringWithin m memory ptr (rounds + 1) ↔
      Readable m ptr ∧ (memory ptr = 0 ∨ memory ptr ≠ 0 ∧ StringWithin m memory (ptr + 1) rounds) := by
  constructor
  · rintro ⟨length, within, nul, before, readable⟩
    refine ⟨readable 0 (Nat.zero_le _), ?_⟩
    cases length with
    | zero => exact .inl nul
    | succ length =>
        refine .inr ⟨before 0 (Nat.zero_lt_succ _), length, by omega, ?_, fun i below => ?_,
          fun i below => ?_⟩
        · rwa [Nat.add_assoc, Nat.add_comm 1]
        · rw [Nat.add_assoc, Nat.add_comm 1]
          exact before (i + 1) (by omega)
        · rw [Nat.add_assoc, Nat.add_comm 1]
          exact readable (i + 1) (by omega)
  · rintro ⟨first, nul | ⟨nonzero, length, within, nul, before, readable⟩⟩
    · refine ⟨0, Nat.zero_lt_succ _, nul, fun i below => by omega, fun i below => ?_⟩
      obtain rfl := Nat.le_zero.mp below
      exact first
    · refine ⟨length + 1, by omega, by rwa [Nat.add_comm length, ← Nat.add_assoc], fun i below => ?_,
        fun i below => ?_⟩
      · cases i with
        | zero => exact nonzero
        | succ i => simpa [Nat.add_assoc, Nat.add_comm 1] using before i (by omega)
      · cases i with
        | zero => exact first
        | succ i => simpa [Nat.add_assoc, Nat.add_comm 1] using readable i (by omega)

theorem next_entered (mapped : vmmIsMapped m (addr &&& 0xFFFFF000) = true)
    (below : addr < 0xC0000000) :
    (addr + 1) % 4096 = 0 ∨ vmmIsMapped m ((addr + 1) &&& 0xFFFFF000) = true := by
  by_cases first : (addr + 1) % 4096 = 0
  · exact .inl first
  · refine .inr ?_
    rw [and_pageMask (by omega)] at mapped ⊢
    rwa [show (addr + 1) / 4096 = addr / 4096 by omega]

/-- From a byte whose page has been asked for, or is asked for now, the walk is safe and
exact. -/
theorem validateBytes_exact (below : ptr + i ≤ 0xC0000000)
    (entered : (ptr + i) % 4096 = 0 ∨ vmmIsMapped m ((ptr + i) &&& 0xFFFFF000) = true) :
    (∀ addr ∈ (validateBytes m memory ptr rounds i).2, Readable m addr) ∧
      ((validateBytes m memory ptr rounds i).1 = true ↔
        StringWithin m memory (ptr + i) rounds) := by
  induction rounds generalizing i with
  | zero =>
      refine ⟨List.forall_mem_nil _, iff_of_false (by simp [validateBytes]) ?_⟩
      rintro ⟨length, within, _⟩
      omega
  | succ rounds ih =>
      have addr : u32 (ptr + i) = ptr + i := u32_eq_of_lt (by omega)
      rw [validateBytes, stringWithin_succ]
      simp only [addr, and_offsetMask]
      by_cases kernel : 0xC0000000 ≤ ptr + i
      · rw [if_pos kernel]
        refine ⟨List.forall_mem_nil _, iff_of_false Bool.false_ne_true ?_⟩
        rintro ⟨readable, _⟩
        exact absurd readable.1 (Nat.not_lt.mpr kernel)
      rw [if_neg kernel]
      by_cases mapped : vmmIsMapped m ((ptr + i) &&& 0xFFFFF000) = true
      · have readable : Readable m (ptr + i) := ⟨Nat.lt_of_not_le kernel, mapped⟩
        rw [if_neg fun missing => by rw [mapped] at missing; cases missing.2]
        by_cases nul : memory (ptr + i) = 0
        · rw [if_pos nul]
          refine ⟨fun addr member => ?_, iff_of_true rfl ⟨readable, .inl nul⟩⟩
          rwa [List.mem_singleton.mp member]
        · rw [if_neg nul]
          obtain ⟨safe, exact⟩ := ih (i := i + 1) (by omega) (next_entered mapped readable.1)
          refine ⟨fun addr member => ?_, exact.trans ?_⟩
          · rcases List.mem_cons.mp member with rfl | later
            · exact readable
            · exact safe addr later
          · exact ⟨fun later => ⟨readable, .inr ⟨nul, later⟩⟩,
              fun found => (found.2.resolve_left nul).2⟩
      · rw [if_pos ⟨entered.resolve_right mapped, Bool.eq_false_iff.mpr mapped⟩]
        refine ⟨List.forall_mem_nil _, iff_of_false Bool.false_ne_true ?_⟩
        rintro ⟨readable, _⟩
        exact mapped readable.2

theorem stringCheck_refused {maxLen : Nat}
    (refused : validateUserString m memory ptr maxLen = (false, [])) :
    StringCheck m memory ptr maxLen ↔ ¬ StringWithin m memory ptr maxLen := by
  constructor
  · intro check within
    have accepted := check.result.mpr within
    rw [refused] at accepted
    cases accepted
  · intro outside
    refine ⟨fun addr member => ?_, ?_⟩
    · rw [refused] at member
      cases member
    · rw [refused]
      exact iff_of_false Bool.false_ne_true outside

theorem stringWithin_user {maxLen : Nat} (within : StringWithin m memory ptr maxLen) :
    0 < maxLen ∧ ptr < 0xC0000000 := by
  obtain ⟨length, below, _, _, readable⟩ := within
  exact ⟨Nat.zero_lt_of_lt below, (readable 0 (Nat.zero_le _)).1⟩

theorem validateBytes_first (user : ptr < 0xC0000000) (inside : ptr % 4096 ≠ 0) :
    ptr ∈ (validateBytes m memory ptr (rounds + 1) 0).2 := by
  have addr : u32 (ptr + 0) = ptr := u32_eq_of_lt (by omega)
  rw [validateBytes]
  simp only [addr, and_offsetMask]
  rw [if_neg (Nat.not_le.mpr user), if_neg fun asked => inside asked.1]
  split
  · exact List.mem_singleton_self ptr
  · exact List.mem_cons_self

end Walk

/-- `validate_user_string` reads only bytes of mapped user pages and accepts exactly the
strings that end in time, if and only if the page that the string begins inside is mapped
and no string lies at the null pointer. -/
theorem validate_user_string_iff (m : Mm) (memory : Nat → Nat) (ptr maxLen : Nat) :
    StringCheck m memory ptr maxLen ↔ StringCareful m memory ptr maxLen := by
  by_cases null : ptr = 0
  · have refused : validateUserString m memory ptr maxLen = (false, []) := if_pos null
    rw [stringCheck_refused refused]
    exact ⟨fun outside => ⟨fun _ => outside, fun _ _ inside => absurd (by rw [null]) inside⟩,
      fun careful => careful.null null⟩
  by_cases kernel : 0xC0000000 ≤ ptr
  · have refused : validateUserString m memory ptr maxLen = (false, []) := by
      rw [validateUserString, if_neg null, if_pos kernel]
    rw [stringCheck_refused refused]
    refine iff_of_true (fun within => ?_) ⟨fun isNull => absurd isNull null, fun _ user => ?_⟩
    · exact absurd (stringWithin_user within).2 (Nat.not_lt.mpr kernel)
    · exact absurd user (Nat.not_lt.mpr kernel)
  have walk : validateUserString m memory ptr maxLen = validateBytes m memory ptr maxLen 0 := by
    rw [validateUserString, if_neg null, if_neg kernel]
  cases maxLen with
  | zero =>
      rw [stringCheck_refused walk]
      refine iff_of_true (fun within => ?_) ⟨fun isNull => absurd isNull null, fun some => ?_⟩
      · exact absurd (stringWithin_user within).1 (Nat.lt_irrefl 0)
      · exact absurd some (Nat.lt_irrefl 0)
  | succ rounds =>
      constructor
      · intro check
        refine ⟨fun isNull => absurd isNull null, fun _ user inside => ?_⟩
        exact (check.reads ptr (walk ▸ validateBytes_first user inside)).2
      · intro careful
        have entered : (ptr + 0) % 4096 = 0 ∨
            vmmIsMapped m ((ptr + 0) &&& 0xFFFFF000) = true := by
          by_cases first : ptr % 4096 = 0
          · exact .inl first
          · exact .inr (careful.firstPage (Nat.zero_lt_succ _) (Nat.lt_of_not_le kernel) first)
        obtain ⟨safe, exact⟩ := validateBytes_exact (by omega) entered
        exact ⟨by rwa [walk], by rwa [walk]⟩

/-- The last byte before the one page that is mapped is read. -/
theorem validate_user_string_unmapped :
    ¬ ∀ m memory ptr maxLen, StringCheck m memory ptr maxLen := by
  intro check
  have read : 0x3FFFFFFF ∈ (validateUserString onePage (fun _ => 0) 0x3FFFFFFF 1).2 := by decide
  have mapped := ((check _ _ _ _).reads _ read).2
  exact absurd mapped (by decide)

end ZurichOS
