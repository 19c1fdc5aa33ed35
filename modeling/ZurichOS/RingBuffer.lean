import Mathlib.Data.List.Range
import Mathlib.Data.Nat.ModEq
import Mathlib.Logic.Function.Basic

/-!
Circular buffers: `count` elements from the position `head` on, in an array of `size`
slots that is entered again at its start.  Appending, removing the first element and
closing the gap of a removed one act on the list of the elements.
-/

namespace RingBuffer

variable {α : Type}

def elements (slots : Nat → α) (size head count : Nat) : List α :=
  (List.range count).map fun i => slots ((head + i) % size)

@[simp] theorem elements_length (slots : Nat → α) (size head count : Nat) :
    (elements slots size head count).length = count := by
  simp [elements]

@[simp] theorem elements_zero (slots : Nat → α) (size head : Nat) :
    elements slots size head 0 = [] := rfl

theorem elements_getElem? (slots : Nat → α) (size head : Nat) {count index : Nat}
    (inside : index < count) :
    (elements slots size head count)[index]? = some (slots ((head + index) % size)) := by
  simp [elements, List.getElem?_range inside]

theorem elements_congr {slots other : Nat → α} {size head count : Nat}
    (same : ∀ i < count, other ((head + i) % size) = slots ((head + i) % size)) :
    elements other size head count = elements slots size head count :=
  List.map_congr_left fun i member => same i (List.mem_range.mp member)

theorem slot_inj {size head i j : Nat} (near : i < size) (close : j < size)
    (same : (head + i) % size = (head + j) % size) : i = j := by
  have turn : head + i ≡ head + j [MOD size] := same
  have offsets := Nat.ModEq.add_left_cancel' head turn
  rwa [Nat.ModEq, Nat.mod_eq_of_lt near, Nat.mod_eq_of_lt close] at offsets

theorem elements_push (slots : Nat → α) (head : Nat) {size count : Nat} (room : count < size)
    (value : α) :
    elements (Function.update slots ((head + count) % size) value) size head (count + 1) =
      elements slots size head count ++ [value] := by
  have old : elements (Function.update slots ((head + count) % size) value) size head count =
      elements slots size head count := by
    refine elements_congr fun i below => Function.update_of_ne (fun same => ?_) ..
    have equal := slot_inj (by omega) room same
    omega
  rw [← old]
  simp [elements, List.range_succ]

theorem elements_pop (slots : Nat → α) {size head : Nat} (within : head < size) (count : Nat) :
    elements slots size head (count + 1) =
      slots head :: elements slots size ((head + 1) % size) count := by
  simp only [elements, List.range_succ_eq_map, List.map_cons, List.map_map]
  congr 1
  · rw [Nat.add_zero, Nat.mod_eq_of_lt within]
  · refine List.map_congr_left fun i _ => ?_
    simp [Nat.add_assoc, Nat.add_comm 1 i]

/-- Each slot from the offset `first` on takes the content of the next one, `steps` times. -/
def shift (size head : Nat) : (first steps : Nat) → (Nat → α) → Nat → α
  | _, 0, slots => slots
  | first, steps + 1, slots => shift size head (first + 1) steps
      (Function.update slots ((head + first) % size) (slots ((head + first + 1) % size)))

theorem shift_slot (slots : Nat → α) {size head first steps offset : Nat} (inside : offset < size)
    (room : first + steps < size) :
    shift size head first steps slots ((head + offset) % size) =
      if first ≤ offset ∧ offset < first + steps then slots ((head + offset + 1) % size)
      else slots ((head + offset) % size) := by
  induction steps generalizing first slots with
  | zero =>
      have out : ¬ (first ≤ offset ∧ offset < first + 0) := by omega
      rw [if_neg out]
      rfl
  | succ steps ih =>
      rw [shift, ih _ (by omega)]
      by_cases later : first + 1 ≤ offset ∧ offset < first + 1 + steps
      · have moved : first ≤ offset ∧ offset < first + (steps + 1) := by omega
        rw [if_pos later, if_pos moved]
        refine Function.update_of_ne (fun same => ?_) ..
        have equal := slot_inj (i := offset + 1) (by omega) (by omega) same
        omega
      · rw [if_neg later]
        by_cases isFirst : offset = first
        · subst isFirst
          rw [if_pos (by omega), Function.update_self]
        · rw [if_neg (by omega)]
          refine Function.update_of_ne (fun same => isFirst ?_) ..
          exact slot_inj inside (by omega) same

/-- Closing the gap behind a removed element takes it out of the list. -/
theorem elements_shift (slots : Nat → α) (head : Nat) {size count index : Nat}
    (bound : count ≤ size) (inside : index < count) :
    elements (shift size head index (count - 1 - index) slots) size head (count - 1) =
      (elements slots size head count).eraseIdx index := by
  refine List.ext_getElem? fun position => ?_
  rw [List.getElem?_eraseIdx]
  by_cases below : position < count - 1
  · rw [elements_getElem? _ _ _ below, shift_slot _ (by omega) (by omega)]
    by_cases early : position < index
    · rw [if_pos early, elements_getElem? _ _ _ (by omega), if_neg (by omega)]
    · rw [if_neg early, elements_getElem? _ _ _ (by omega), if_pos (by omega), Nat.add_assoc]
  · rw [List.getElem?_eq_none (by simp; omega)]
    split
    · omega
    · rw [List.getElem?_eq_none (by simp; omega)]

end RingBuffer
