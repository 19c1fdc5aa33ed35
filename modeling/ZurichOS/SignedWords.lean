import Mathlib.Data.Int.Cast.Basic

/-!
Computations on `int`, which wrap around at `2 ^ 31`.
-/

namespace Words

/-- The value that an `int` has after a computation. -/
def wrap32 (value : Int) : Int := (value + 2147483648) % 4294967296 - 2147483648

theorem wrap32_eq {value : Int} (lower : -2147483648 ≤ value) (upper : value < 2147483648) :
    wrap32 value = value := by
  rw [wrap32]
  omega

theorem wrap32_nat {sum : Int} {value : Nat} (is : sum = value) (small : value < 2147483648) :
    wrap32 sum = value := by
  rw [wrap32_eq (by omega) (by omega), is]

end Words
