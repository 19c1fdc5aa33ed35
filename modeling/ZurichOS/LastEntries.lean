import ZurichOS.RingBuffer

/-!
A circular buffer with a write position and a count that stops at its size has the last entries of
all that were written.
-/

namespace RingBuffer

variable {α : Type}

/-- Where the oldest entry is. -/
def oldest (size write count : Nat) : Nat := (write + size - count) % size

structure Keeps (slots : Nat → α) (size write count : Nat) (log : List α) : Prop where
  inside : write < size
  full : count = min size log.length
  entries : elements slots size (oldest size write count) count = log.drop (log.length - count)

variable {slots : Nat → α} {size write count : Nat} {log : List α}

theorem oldest_add (small : count ≤ size) (i : Nat) :
    (oldest size write count + i) % size = (write + size + i - count) % size := by
  rw [oldest, Nat.mod_add_mod]
  congr 1
  omega

theorem Keeps.start (slots : Nat → α) (some : 0 < size) : Keeps slots size 0 0 [] :=
  ⟨some, (Nat.min_zero _).symm, rfl⟩

theorem Keeps.count_le (keeps : Keeps slots size write count log) :
    count ≤ size ∧ count ≤ log.length := by
  rw [keeps.full]
  exact ⟨Nat.min_le_left _ _, Nat.min_le_right _ _⟩

theorem Keeps.entry (keeps : Keeps slots size write count log) {i : Nat} (inside : i < count) :
    log[log.length - count + i]? = some (slots ((write + size + i - count) % size)) := by
  rw [← List.getElem?_drop, ← keeps.entries, elements_getElem? _ _ _ inside,
    oldest_add keeps.count_le.1]

theorem Keeps.push_room (keeps : Keeps slots size write count log) (room : count < size)
    (value : α) :
    Keeps (Function.update slots write value) size ((write + 1) % size) (count + 1)
      (log ++ [value]) := by
  have inside := keeps.inside
  have full := keeps.full
  have slot : (oldest size write count + count) % size = write := by
    rw [oldest_add keeps.count_le.1, Nat.add_sub_cancel, Nat.add_mod_right,
      Nat.mod_eq_of_lt inside]
  have head : oldest size ((write + 1) % size) (count + 1) = oldest size write count := by
    rw [oldest, oldest]
    by_cases last : write + 1 = size
    · rw [last, Nat.mod_self, show write + size - count = 0 + size - (count + 1) + size by omega,
        Nat.add_mod_right]
    · rw [Nat.mod_eq_of_lt (by omega : write + 1 < size),
        show write + 1 + size - (count + 1) = write + size - count by omega]
  have pushed := elements_push slots (oldest size write count) room value
  rw [slot] at pushed
  refine ⟨Nat.mod_lt _ (Nat.zero_lt_of_lt inside), ?_, ?_⟩
  · rw [List.length_append, List.length_singleton]
    omega
  · rw [head, pushed, keeps.entries, List.length_append, List.length_singleton,
      Nat.add_sub_add_right, List.drop_append_of_le_length (Nat.sub_le _ _)]

theorem Keeps.push_full {others : Nat} (keeps : Keeps slots (others + 1) write (others + 1) log)
    (value : α) :
    Keeps (Function.update slots write value) (others + 1) ((write + 1) % (others + 1))
      (others + 1) (log ++ [value]) := by
  have inside := keeps.inside
  have within := keeps.count_le.2
  have full := keeps.full
  have slot : ((write + 1) % (others + 1) + others) % (others + 1) = write := by
    rw [Nat.mod_add_mod, Nat.add_assoc, Nat.add_comm 1, Nat.add_mod_right,
      Nat.mod_eq_of_lt inside]
  have head (position : Nat) (below : position < others + 1) :
      oldest (others + 1) position (others + 1) = position := by
    rw [oldest, Nat.add_sub_cancel, Nat.mod_eq_of_lt below]
  have entries := keeps.entries
  rw [head write inside, elements_pop slots inside] at entries
  have pushed := elements_push slots ((write + 1) % (others + 1)) (Nat.lt_succ_self others) value
  rw [slot] at pushed
  have later : (log.drop (log.length - (others + 1))).tail =
      log.drop (log.length + 1 - (others + 1)) := by
    rw [List.tail_drop]
    congr 1
    omega
  refine ⟨Nat.mod_lt _ (Nat.succ_pos _), ?_, ?_⟩
  · rw [List.length_append, List.length_singleton]
    omega
  · rw [head _ (Nat.mod_lt _ (Nat.succ_pos _)), pushed, List.length_append, List.length_singleton,
      List.drop_append_of_le_length (by omega), ← later, ← entries]
    rfl

/-- An entry is written behind the others, in the place of the oldest one where they are full. -/
theorem Keeps.push (keeps : Keeps slots size write count log) (value : α) :
    Keeps (Function.update slots write value) size ((write + 1) % size)
      (if count < size then count + 1 else count) (log ++ [value]) := by
  split
  · rename_i room
    exact keeps.push_room room value
  · have isFull : count = size := by
      have small := keeps.count_le.1
      omega
    subst isFull
    cases count with
    | zero => exact absurd keeps.inside (Nat.not_lt_zero _)
    | succ others => exact keeps.push_full value

end RingBuffer
