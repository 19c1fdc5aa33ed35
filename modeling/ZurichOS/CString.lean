import Mathlib.Data.List.GetD

/-!
Strings with a terminator, and what copies of a bounded length leave of them.
-/

namespace ZurichOS

/-- The characters of a string in front of its terminator. -/
structure CString where
  chars : List UInt8
  plain : 0 ∉ chars
  deriving DecidableEq

theorem CString.char_ne (str : CString) (behind : List UInt8) {i : Nat}
    (inside : i < str.chars.length) : (str.chars ++ behind).getD i 0 ≠ 0 := by
  rw [List.getD_append _ _ _ _ inside, List.getD_eq_getElem _ _ inside]
  intro zero
  exact str.plain (zero ▸ List.getElem_mem inside)

namespace CString

@[ext] theorem ext {str other : CString} (same : str.chars = other.chars) : str = other := by
  cases str
  cases other
  cases same
  rfl

/-- `strncpy` of at most so many characters, and a terminator. -/
def cut (count : Nat) (str : CString) : CString where
  chars := str.chars.take count
  plain member := str.plain (List.mem_of_mem_take member)

theorem cut_length_le (count : Nat) (str : CString) : (str.cut count).chars.length ≤ count :=
  List.length_take_le _ _

theorem cut_eq {count : Nat} {str : CString} (short : str.chars.length ≤ count) :
    str.cut count = str := ext (List.take_of_length_le short)

/-- A text of the source, which has no terminator inside. -/
def ofString (text : String) : CString where
  chars := (text.toList.map fun char => UInt8.ofNat char.toNat).filter (· ≠ 0)
  plain member := by simpa using (List.mem_filter.mp member).2

theorem ofString_length_le (text : String) : (ofString text).chars.length ≤ text.length := by
  have kept := List.length_filter_le (· ≠ 0) (text.toList.map fun char => UInt8.ofNat char.toNat)
  rwa [List.length_map, String.length_toList] at kept

end CString

end ZurichOS
