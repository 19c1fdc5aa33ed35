import Mathlib.Data.List.GetD
import Mathlib.Data.List.Range

/-!
Files as lists of bytes.  A write past the end fills the gap with zeros; a read gives
the requested slice, cut at the end.
-/

namespace FileContents

def readAt (bytes : List UInt8) (offset size : Nat) : List UInt8 := (bytes.drop offset).take size

def writeAt (bytes : List UInt8) (offset : Nat) (data : List UInt8) : List UInt8 :=
  (bytes ++ List.replicate (offset - bytes.length) 0).take offset ++ data ++
    bytes.drop (offset + data.length)

def image (store : Nat → UInt8) (size : Nat) : List UInt8 := (List.range size).map store

variable {bytes other data : List UInt8} {store : Nat → UInt8} {offset size position : Nat}

theorem ext_getD (sameLength : other.length = bytes.length)
    (same : ∀ position < bytes.length, other.getD position 0 = bytes.getD position 0) :
    other = bytes := by
  apply List.ext_getElem sameLength
  intro position inside bound
  rw [← List.getD_eq_getElem _ 0, ← List.getD_eq_getElem _ 0]
  exact same position bound

@[simp] theorem length_readAt :
    (readAt bytes offset size).length = min size (bytes.length - offset) := by
  simp [readAt]

@[simp] theorem length_writeAt :
    (writeAt bytes offset data).length = max bytes.length (offset + data.length) := by
  simp only [writeAt, List.length_append, List.length_take, List.length_replicate,
    List.length_drop]
  omega

/-- A position holds the byte written there, or else what it held, where there is
nothing a zero. -/
theorem getD_writeAt : (writeAt bytes offset data).getD position 0 =
    if offset ≤ position ∧ position < offset + data.length then data.getD (position - offset) 0
    else bytes.getD position 0 := by
  have front : ((bytes ++ List.replicate (offset - bytes.length) 0).take offset).length =
      offset := by
    rw [List.length_take, List.length_append, List.length_replicate]
    omega
  have before : ((bytes ++ List.replicate (offset - bytes.length) 0).take offset ++ data).length =
      offset + data.length := by
    rw [List.length_append, front]
  unfold writeAt
  by_cases early : position < offset
  · rw [if_neg (by omega), List.getD_append _ _ _ _ (by omega),
      List.getD_append _ _ _ _ (by omega), List.getD_eq_getElem?_getD,
      List.getElem?_take_of_lt early]
    by_cases inside : position < bytes.length
    · rw [List.getElem?_append_left inside, List.getD_eq_getElem?_getD]
    · rw [List.getElem?_append_right (Nat.le_of_not_lt inside), List.getElem?_replicate,
        if_pos (by omega), List.getD_eq_default _ _ (Nat.le_of_not_lt inside)]
      rfl
  · by_cases late : position < offset + data.length
    · rw [if_pos ⟨Nat.le_of_not_lt early, late⟩, List.getD_append _ _ _ _ (by omega),
        List.getD_append_right _ _ _ _ (by omega), front]
    · rw [if_neg fun within => late within.2, List.getD_append_right _ _ _ _ (by omega), before,
        List.getD_eq_getElem?_getD, List.getElem?_drop, List.getD_eq_getElem?_getD]
      congr 2
      omega

theorem writeAt_nil (inside : offset ≤ bytes.length) : writeAt bytes offset [] = bytes := by
  simp [writeAt, Nat.sub_eq_zero_of_le inside]

@[simp] theorem length_image : (image store size).length = size := by
  simp [image]

theorem getD_image (inside : position < size) : (image store size).getD position 0 = store position := by
  simp [image, List.getElem?_range inside]

theorem readAt_image (count : Nat) : readAt (image store size) offset count =
    (List.range (min count (size - offset))).map fun i => store (offset + i) := by
  apply List.ext_getElem
  · simp
  · intro i inside bound
    simp [readAt, image]

/-- Zeros are read where the file is long enough and the store has them. -/
theorem readAt_image_zero {count : Nat} :
    readAt (image store size) offset count = List.replicate count 0 ↔
      count ≤ size - offset ∧ ∀ i < count, store (offset + i) = 0 := by
  rw [readAt_image, List.eq_replicate_iff, List.length_map, List.length_range]
  constructor
  · rintro ⟨length, zero⟩
    refine ⟨by omega, fun i below => ?_⟩
    exact zero _ (List.mem_map_of_mem (List.mem_range.mpr (by omega)))
  · rintro ⟨long, zero⟩
    refine ⟨by omega, fun byte member => ?_⟩
    obtain ⟨i, inside, rfl⟩ := List.mem_map.mp member
    exact zero i (by have below := List.mem_range.mp inside; omega)

/-- A store that differs from another in the bytes written holds the written file. -/
theorem image_writeAt {after : Nat → UInt8} (inside : offset ≤ size)
    (same : ∀ position < max size (offset + data.length), after position =
      if offset ≤ position ∧ position < offset + data.length then data.getD (position - offset) 0
      else store position) :
    image after (max size (offset + data.length)) = writeAt (image store size) offset data := by
  apply ext_getD
  · rw [length_writeAt, length_image, length_image]
  · intro position bound
    rw [length_writeAt, length_image] at bound
    rw [getD_image bound, same position bound, getD_writeAt]
    by_cases written : offset ≤ position ∧ position < offset + data.length
    · rw [if_pos written, if_pos written]
    · rw [if_neg written, if_neg written, getD_image]
      omega

end FileContents
