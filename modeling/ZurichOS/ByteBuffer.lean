import Mathlib.Data.List.Range
import Mathlib.Data.Nat.Bitwise

/-!
Byte buffers: copying a list of bytes to a place, and little-endian words.
-/

namespace ByteBuffer

abbrev Buffer := Nat → UInt8

/-- `memcpy` of the bytes to the position `start`. -/
def putBytes (buf : Buffer) (start : Nat) (bytes : List UInt8) : Buffer := fun i =>
  if start ≤ i ∧ i < start + bytes.length then bytes.getD (i - start) 0 else buf i

def bytesAt (buf : Buffer) (start count : Nat) : List UInt8 :=
  (List.range count).map fun i => buf (start + i)

/-- The part of a string before its terminator. -/
def cString (bytes : List UInt8) : List UInt8 := bytes.takeWhile (· ≠ 0)

def word16 (buf : Buffer) (start : Nat) : Nat :=
  (buf start).toNat + 256 * (buf (start + 1)).toNat

def word32 (buf : Buffer) (start : Nat) : Nat :=
  word16 buf start + 65536 * word16 buf (start + 2)

def le16 (value : Nat) : List UInt8 := [.ofNat value, .ofNat (value / 256)]

def le32 (value : Nat) : List UInt8 := le16 value ++ le16 (value / 65536)

section Lemmas

variable (buf : Buffer) {start i count value : Nat} {bytes : List UInt8}

theorem putBytes_inside (lower : start ≤ i) (upper : i < start + bytes.length) :
    putBytes buf start bytes i = bytes.getD (i - start) 0 := if_pos ⟨lower, upper⟩

theorem putBytes_outside (outside : i < start ∨ start + bytes.length ≤ i) :
    putBytes buf start bytes i = buf i := by
  apply if_neg
  omega

theorem putBytes_get (inside : i < bytes.length) :
    putBytes buf start bytes (start + i) = bytes.getD i 0 := by
  rw [putBytes_inside buf (by omega) (by omega), Nat.add_sub_cancel_left]

@[simp] theorem bytesAt_length (buf : Buffer) (start count : Nat) :
    (bytesAt buf start count).length = count := by
  simp [bytesAt]

theorem bytesAt_getD (inside : i < count) : (bytesAt buf start count).getD i 0 = buf (start + i) := by
  simp [bytesAt, List.getElem?_range inside]

theorem bytesAt_congr {buf other : Buffer}
    (same : ∀ i < count, other (start + i) = buf (start + i)) :
    bytesAt other start count = bytesAt buf start count := by
  apply List.map_congr_left
  intro i member
  exact same i (List.mem_range.mp member)

theorem bytesAt_append (more : Nat) :
    bytesAt buf start count ++ bytesAt buf (start + count) more =
      bytesAt buf start (count + more) := by
  simp [bytesAt, List.range_add, Nat.add_assoc]

theorem bytesAt_putBytes :
    bytesAt (putBytes buf start bytes) start bytes.length = bytes := by
  refine List.ext_getElem (bytesAt_length _ _ _) fun i _ inside => ?_
  have get := @putBytes_get buf start i bytes inside
  rw [List.getD_eq_getElem _ _ inside] at get
  simp only [bytesAt, List.getElem_map, List.getElem_range, get]

theorem word16_congr {buf other : Buffer} (first : other start = buf start)
    (second : other (start + 1) = buf (start + 1)) : word16 other start = word16 buf start := by
  rw [word16, word16, first, second]

theorem word16_outside (outside : start + 2 ≤ i ∨ i + bytes.length ≤ start) :
    word16 (putBytes buf i bytes) start = word16 buf start := by
  apply word16_congr
  · apply putBytes_outside
    omega
  · apply putBytes_outside
    omega

theorem word32_congr {buf other : Buffer}
    (same : ∀ i < 4, other (start + i) = buf (start + i)) : word32 other start = word32 buf start := by
  have low : word16 other start = word16 buf start := by
    apply word16_congr
    · exact same 0 (by omega)
    · exact same 1 (by omega)
  have high : word16 other (start + 2) = word16 buf (start + 2) := by
    apply word16_congr
    · exact same 2 (by omega)
    · exact same 3 (by omega)
  rw [word32, word32, low, high]

theorem word32_outside (outside : start + 4 ≤ i ∨ i + bytes.length ≤ start) :
    word32 (putBytes buf i bytes) start = word32 buf start := by
  apply word32_congr
  intro j small
  apply putBytes_outside
  omega

@[simp] theorem le16_length : (le16 value).length = 2 := rfl

@[simp] theorem le32_length : (le32 value).length = 4 := rfl

theorem word16_put : word16 (putBytes buf start (le16 value)) start = value % 65536 := by
  have first : putBytes buf start (le16 value) start = .ofNat value := putBytes_get buf (i := 0)
    (by simp)
  have second : putBytes buf start (le16 value) (start + 1) = .ofNat (value / 256) :=
    putBytes_get buf (i := 1) (by simp)
  rw [word16, first, second, UInt8.toNat_ofNat', UInt8.toNat_ofNat']
  omega

theorem word32_put : word32 (putBytes buf start (le32 value)) start = value % 4294967296 := by
  have byte : ∀ i < 4, putBytes buf start (le32 value) (start + i) = (le32 value).getD i 0 :=
    fun i small => putBytes_get buf small
  have first : putBytes buf start (le32 value) start = .ofNat value := byte 0 (by omega)
  have second : putBytes buf start (le32 value) (start + 1) = .ofNat (value / 256) :=
    byte 1 (by omega)
  have third : putBytes buf start (le32 value) (start + 2) = .ofNat (value / 65536) :=
    byte 2 (by omega)
  have fourth : putBytes buf start (le32 value) (start + 2 + 1) = .ofNat (value / 65536 / 256) :=
    byte 3 (by omega)
  rw [word32, word16, word16, first, second, third, fourth]
  simp only [UInt8.toNat_ofNat']
  omega

theorem word16_lt : word16 buf start < 65536 := by
  have low := UInt8.toNat_lt (buf start)
  have high := UInt8.toNat_lt (buf (start + 1))
  rw [word16]
  omega

theorem word32_lt : word32 buf start < 4294967296 := by
  have low := @word16_lt buf start
  have high := @word16_lt buf (start + 2)
  rw [word32]
  omega

end Lemmas

end ByteBuffer
