import Mathlib.Data.List.Basic

/-!
Bitmaps packed in machine words of any width: bit `n` is bit `n % w` of word
`n / w`.  The operations are the C idioms; the lemmas state them bit by bit and
relate them to the number of set bits below a bound.
-/

namespace PackedBitmap

variable {w : Nat}

def bit (n : Nat) : BitVec w := 1#w <<< (n % w)

/-- `words[n / w] & (1 << (n % w))` -/
def test (words : Nat → BitVec w) (n : Nat) : Bool :=
  words (n / w) &&& bit n != 0#w

/-- `words[n / w] |= 1 << (n % w)` -/
def set (words : Nat → BitVec w) (n : Nat) : Nat → BitVec w :=
  fun index => if index = n / w then words index ||| bit n else words index

/-- `words[n / w] &= ~(1 << (n % w))` -/
def clear (words : Nat → BitVec w) (n : Nat) : Nat → BitVec w :=
  fun index => if index = n / w then words index &&& ~~~bit n else words index

def count (words : Nat → BitVec w) (total : Nat) : Nat :=
  (List.range total).countP (test words)

theorem getLsbD_bit (positive : 0 < w) (n position : Nat) :
    (bit n : BitVec w).getLsbD position = decide (position = n % w) := by
  have inside : n % w < w := Nat.mod_lt n positive
  simp only [bit, BitVec.getLsbD_shiftLeft, BitVec.getLsbD_one]
  by_cases same : position = n % w
  · simp [same, inside, positive]
  · by_cases below : position < n % w
    · simp [same, below]
    · have apart : position - n % w ≠ 0 := by omega
      simp [same, apart]

theorem test_eq_getLsbD (positive : 0 < w) (words : Nat → BitVec w) (n : Nat) :
    test words n = (words (n / w)).getLsbD (n % w) := by
  have inside : n % w < w := Nat.mod_lt n positive
  apply Bool.eq_iff_iff.mpr
  simp only [test, bne_iff_ne, ne_eq]
  constructor
  · intro nonzero
    apply Decidable.byContradiction
    intro unset
    apply nonzero
    apply BitVec.eq_of_getLsbD_eq
    intro position _
    by_cases same : position = n % w
    · subst same
      simp only [Bool.not_eq_true] at unset
      simp [BitVec.getLsbD_and, unset]
    · simp [BitVec.getLsbD_and, getLsbD_bit positive, same]
  · intro isSet zero
    have bitZero := congrArg (fun word => word.getLsbD (n % w)) zero
    simp [BitVec.getLsbD_and, getLsbD_bit positive, isSet] at bitZero

theorem eq_of_parts {n m : Nat} (word : m / w = n / w) (offset : m % w = n % w) : m = n := by
  rw [← Nat.div_add_mod m w, ← Nat.div_add_mod n w, word, offset]

theorem test_set (positive : 0 < w) (words : Nat → BitVec w) (n m : Nat) :
    test (set words n) m = (decide (m = n) || test words m) := by
  rw [test_eq_getLsbD positive, test_eq_getLsbD positive]
  simp only [set]
  by_cases word : m / w = n / w
  · simp only [word, if_true, BitVec.getLsbD_or, getLsbD_bit positive]
    by_cases offset : m % w = n % w
    · simp [eq_of_parts word offset]
    · have apart : m ≠ n := fun same => offset (by rw [same])
      simp [offset, apart]
  · have apart : m ≠ n := fun same => word (by rw [same])
    simp [word, apart]

theorem test_clear (positive : 0 < w) (words : Nat → BitVec w) (n m : Nat) :
    test (clear words n) m = (!decide (m = n) && test words m) := by
  have inside : m % w < w := Nat.mod_lt m positive
  rw [test_eq_getLsbD positive, test_eq_getLsbD positive]
  simp only [clear]
  by_cases word : m / w = n / w
  · simp only [word, if_true, BitVec.getLsbD_and, BitVec.getLsbD_not, getLsbD_bit positive]
    by_cases offset : m % w = n % w
    · simp [eq_of_parts word offset]
    · have apart : m ≠ n := fun same => offset (by rw [same])
      simp [offset, apart, inside]
  · have apart : m ≠ n := fun same => word (by rw [same])
    simp [word, apart]

theorem test_allOnes (positive : 0 < w) (words : Nat → BitVec w) (n : Nat)
    (full : words (n / w) = BitVec.allOnes w) : test words n = true := by
  rw [test_eq_getLsbD positive, full, BitVec.getLsbD_allOnes]
  exact decide_eq_true (Nat.mod_lt n positive)

theorem exists_clear (positive : 0 < w) (words : Nat → BitVec w) (index : Nat)
    (partly : words index ≠ BitVec.allOnes w) :
    ∃ offset < w, test words (index * w + offset) = false := by
  apply Decidable.byContradiction
  intro none
  apply partly
  apply BitVec.eq_of_getLsbD_eq
  intro offset bound
  rw [BitVec.getLsbD_allOnes, decide_eq_true bound]
  have tested : test words (index * w + offset) = true := by
    cases value : test words (index * w + offset) with
    | true => rfl
    | false => exact absurd ⟨offset, bound, value⟩ none
  rw [test_eq_getLsbD positive] at tested
  rwa [Nat.mul_comm, Nat.mul_add_div positive, Nat.div_eq_of_lt bound, Nat.add_zero,
    Nat.mul_add_mod, Nat.mod_eq_of_lt bound] at tested

theorem countP_range_flip (before after : Nat → Bool) (total n : Nat) (bound : n < total)
    (off : before n = false) (on : after n = true) (same : ∀ m, m ≠ n → after m = before m) :
    (List.range total).countP after = (List.range total).countP before + 1 := by
  induction total with
  | zero => omega
  | succ total ih =>
      simp only [List.range_succ, List.countP_append, List.countP_singleton]
      by_cases last : n = total
      · subst last
        have prefixSame : (List.range n).countP after = (List.range n).countP before := by
          apply List.countP_congr
          intro m member
          rw [same m (by have := List.mem_range.mp member; omega)]
        simp [prefixSame, on, off]
      · rw [ih (by omega), same total (Ne.symm last)]
        omega

theorem count_set (positive : 0 < w) (words : Nat → BitVec w) {total n : Nat}
    (bound : n < total) (off : test words n = false) :
    count (set words n) total = count words total + 1 := by
  apply countP_range_flip _ _ _ n bound off
  · simp [test_set positive]
  · intro m apart
    simp [test_set positive, apart]

theorem count_clear (positive : 0 < w) (words : Nat → BitVec w) {total n : Nat}
    (bound : n < total) (on : test words n = true) :
    count words total = count (clear words n) total + 1 := by
  apply countP_range_flip _ _ _ n bound
  · simp [test_clear positive]
  · exact on
  · intro m apart
    simp [test_clear positive, apart]

theorem count_le (words : Nat → BitVec w) (total : Nat) : count words total ≤ total := by
  simpa [count] using List.countP_le_length (p := test words) (l := List.range total)

theorem count_eq_total (words : Nat → BitVec w) (total : Nat) :
    count words total = total ↔ ∀ n < total, test words n = true := by
  have counted := List.countP_eq_length (p := test words) (l := List.range total)
  simpa [count] using counted

end PackedBitmap
