import Mathlib.Data.Nat.ModEq

/-!
Sums with end-around carry.  Folding the carries back into a digit keeps the remainder
modulo one less than the radix, and never makes a sum zero that was not.
-/

namespace OnesComplement

variable {radix sum digit other : Nat}

def fold (radix sum : Nat) : Nat := sum % radix + sum / radix

theorem fold_modEq (positive : 0 < radix) : fold radix sum ≡ sum [MOD radix - 1] := by
  obtain ⟨size, rfl⟩ : ∃ size, radix = size + 1 := ⟨radix - 1, by omega⟩
  have parts : fold (size + 1) sum + size * (sum / (size + 1)) = sum := by
    have division := Nat.mod_add_div sum (size + 1)
    rw [Nat.add_mul, Nat.one_mul] at division
    rw [fold]
    omega
  calc fold (size + 1) sum
      ≡ fold (size + 1) sum + size * (sum / (size + 1)) [MOD size] := by
        simp [Nat.ModEq]
    _ = sum := parts

theorem fold_eq_zero_iff : fold radix sum = 0 ↔ sum = 0 := by
  constructor
  · intro zero
    have division := Nat.mod_add_div sum radix
    obtain ⟨noRest, noCarry⟩ := Nat.add_eq_zero_iff.mp zero
    rw [noRest, noCarry] at division
    omega
  · rintro rfl
    simp [fold]

/-- The digit that a sum folds to. -/
structure Folds (radix sum digit : Nat) : Prop where
  lt : digit < radix
  modEq : digit ≡ sum [MOD radix - 1]
  zero : digit = 0 ↔ sum = 0

theorem Folds.self (small : sum < radix) : Folds radix sum sum :=
  ⟨small, .refl _, .rfl⟩

theorem Folds.of_fold (positive : 0 < radix) (folds : Folds radix (fold radix sum) digit) :
    Folds radix sum digit :=
  ⟨folds.lt, folds.modEq.trans (fold_modEq positive), folds.zero.trans fold_eq_zero_iff⟩

/-- Of the two digits that stand for zero, the full one is that of a sum that is not zero. -/
theorem Folds.full_iff (proper : 1 < radix) (folds : Folds radix sum digit) :
    digit = radix - 1 ↔ sum ≠ 0 ∧ radix - 1 ∣ sum := by
  have divides : radix - 1 ∣ digit ↔ radix - 1 ∣ sum := folds.modEq.dvd_iff dvd_rfl
  constructor
  · rintro rfl
    refine ⟨fun zero => ?_, divides.mp dvd_rfl⟩
    have none := folds.zero.mpr zero
    omega
  · rintro ⟨nonzero, whole⟩
    have positive : 0 < digit := Nat.pos_of_ne_zero fun zero => nonzero (folds.zero.mp zero)
    have least := Nat.le_of_dvd positive (divides.mpr whole)
    have bound := folds.lt
    omega

/-- A sum and the complement of its digit fold to the full digit. -/
theorem Folds.complement (proper : 1 < radix) (folds : Folds radix sum digit) :
    sum + (radix - 1 - digit) ≠ 0 ∧ radix - 1 ∣ sum + (radix - 1 - digit) := by
  have bound := folds.lt
  constructor
  · intro zero
    have none : digit = 0 := folds.zero.mpr (by omega)
    omega
  · have whole : digit + (radix - 1 - digit) = radix - 1 := by omega
    have same : sum + (radix - 1 - digit) ≡ radix - 1 [MOD radix - 1] := by
      calc sum + (radix - 1 - digit)
          ≡ digit + (radix - 1 - digit) [MOD radix - 1] := folds.modEq.symm.add_right _
        _ = radix - 1 := whole
    exact (same.dvd_iff dvd_rfl).mpr dvd_rfl

/-- Two digits with the same remainder are equal or the two digits that stand for zero. -/
theorem digits_eq (small : digit < radix) (otherSmall : other < radix)
    (same : digit ≡ other [MOD radix - 1]) :
    digit = other ∨ digit = 0 ∧ other = radix - 1 ∨ digit = radix - 1 ∧ other = 0 := by
  rcases Nat.lt_trichotomy digit other with less | equal | more
  · obtain ⟨factor, gap⟩ := (Nat.modEq_iff_dvd' less.le).mp same
    rcases factor with _ | factor
    · omega
    · have least : radix - 1 ≤ (radix - 1) * (factor + 1) := Nat.le_mul_of_pos_right _ (by omega)
      omega
  · exact .inl equal
  · obtain ⟨factor, gap⟩ := (Nat.modEq_iff_dvd' more.le).mp same.symm
    rcases factor with _ | factor
    · omega
    · have least : radix - 1 ≤ (radix - 1) * (factor + 1) := Nat.le_mul_of_pos_right _ (by omega)
      omega

end OnesComplement
