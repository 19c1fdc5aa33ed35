import Mathlib.Algebra.Order.BigOperators.Group.List
import Mathlib.Algebra.Order.Ring.Nat

/-!
Texts put together from pieces, and bounds on their lengths that hold whatever the values are.
-/

namespace Formatting

/-- The digits of a number, at most so many. -/
def digits : Nat → Nat → List UInt8
  | 0, _ => []
  | room + 1, value =>
      if value = 0 then [] else digits room (value / 10) ++ [UInt8.ofNat (0x30 + value % 10)]

/-- A word in decimal, through a buffer for twelve characters. -/
def decimal (value : Nat) : List UInt8 := if value = 0 then [0x30] else digits 12 value

def ascii (text : String) : List UInt8 := text.toList.map fun char => UInt8.ofNat char.toNat

def nibble (upper : Bool) (value : Nat) : UInt8 :=
  if value < 10 then UInt8.ofNat (0x30 + value)
  else if upper then UInt8.ofNat (0x41 + value - 10)
  else UInt8.ofNat (0x61 + value - 10)

/-- The lowest digits of a number in hexadecimal. -/
def hexadecimal (upper : Bool) (count value : Nat) : List UInt8 :=
  (List.range count).map fun i => nibble upper (value >>> ((count - 1 - i) * 4) &&& 0xF)

inductive Piece where
  | text (string : String)
  | flag (on : Bool) (string : String)
  | number (value : Nat)
  | hex (count value : Nat)

def Piece.bytes : Piece → List UInt8
  | .text string => ascii string
  | .flag on string => if on then ascii string else []
  | .number value => decimal value
  | .hex count value => hexadecimal true count value

/-- The greatest length of a piece, whatever the values in it. -/
def Piece.most : Piece → Nat
  | .text string | .flag _ string => string.length
  | .number _ => 12
  | .hex count _ => count

def written (pieces : List Piece) : List UInt8 := pieces.flatMap Piece.bytes

def most (pieces : List Piece) : Nat := (pieces.map Piece.most).sum

variable {room value : Nat} {pieces : List Piece} {text : String}

@[simp] theorem ascii_length : (ascii text).length = text.length := by
  rw [ascii, List.length_map, String.length_toList]

@[simp] theorem hexadecimal_length {upper : Bool} {count : Nat} :
    (hexadecimal upper count value).length = count := by
  rw [hexadecimal, List.length_map, List.length_range]

theorem digits_length_le (room value : Nat) : (digits room value).length ≤ room := by
  induction room generalizing value with
  | zero => exact Nat.le_refl 0
  | succ room ih =>
      rw [digits]
      split
      · exact Nat.zero_le _
      · rw [List.length_append]
        exact Nat.succ_le_succ (ih _)

theorem decimal_length_le (value : Nat) : (decimal value).length ≤ 12 := by
  rw [decimal]
  split
  · decide
  · exact digits_length_le 12 value

theorem Piece.bytes_length_le (piece : Piece) : piece.bytes.length ≤ piece.most := by
  cases piece with
  | text string => exact Nat.le_of_eq ascii_length
  | flag on string =>
      cases on with
      | false => exact Nat.zero_le _
      | true => exact Nat.le_of_eq ascii_length
  | number value => exact decimal_length_le value
  | hex count value => exact Nat.le_of_eq hexadecimal_length

theorem written_length_le (pieces : List Piece) : (written pieces).length ≤ most pieces := by
  rw [written, List.length_flatMap]
  exact List.sum_le_sum fun piece _ => piece.bytes_length_le

/-! The bound of a text, from the bounds of its pieces one by one. -/

theorem Piece.text_most (chars : List Char) :
    (Piece.text (String.ofList chars)).most ≤ chars.length := Nat.le_of_eq String.length_ofList

theorem Piece.flag_most (on : Bool) (chars : List Char) :
    (Piece.flag on (String.ofList chars)).most ≤ chars.length := Nat.le_of_eq String.length_ofList

theorem Piece.number_most (value : Nat) : (Piece.number value).most ≤ 12 := Nat.le_refl 12

theorem written_within {sizes : List Nat}
    (each : List.Forall₂ (fun piece size => piece.most ≤ size) pieces sizes)
    (small : sizes.sum ≤ room) : (written pieces).length ≤ room := by
  refine (written_length_le pieces).trans (Nat.le_trans ?_ small)
  clear small
  induction each with
  | nil => exact Nat.le_refl 0
  | cons first _ ih => exact Nat.add_le_add first ih

end Formatting
