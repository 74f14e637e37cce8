import Mathlib
import SessionGrid.Binary64

/-!
# What the total order of binary64 says about numbers

A pattern that is no NaN denotes a real number or an infinity (`value`). Without their signs patterns
count the numbers upwards, in units of the least one (`unitsOf`), so that a smaller number has its place
before a greater one (`rank_lt_of_value_lt`). NaNs have their places outside those of all numbers, each on
the side of its sign.
-/

namespace SessionGrid.Binary64

/-- Every bit pattern has a place of its own in the total order. -/
theorem rank_inj {x y : Binary64} : x.rank = y.rank ↔ x = y := by
  refine ⟨fun same => ?_, fun same => congrArg rank same⟩
  have small : x.bits.toNat < 2 ^ 64 ∧ y.bits.toNat < 2 ^ 64 := ⟨x.bits.toNat_lt, y.bits.toNat_lt⟩
  have bits : x.bits.toNat = y.bits.toNat := by
    simp only [rank, isNegative, magnitude, decide_eq_true_eq] at same
    split at same <;> split at same <;> omega
  cases x
  cases y
  exact congrArg mk (UInt64.toNat_inj.1 bits)

/-! ## The number that a pattern denotes -/

/-- The eleven bits of exponent. -/
def exponent (x : Binary64) : Nat :=
  x.magnitude / 2 ^ 52

/-- The fifty-two bits of fraction. -/
def fraction (x : Binary64) : Nat :=
  x.magnitude % 2 ^ 52

/-- The number without its sign: the least exponent stands for subnormal numbers, the greatest for
infinity. -/
noncomputable def size (x : Binary64) : EReal :=
  if x.exponent = 0 then ((x.fraction / 2 ^ 52 * 2 ^ (-1022 : ℤ) : ℝ) : EReal)
  else if x.exponent = 2047 then ⊤
  else (((1 + x.fraction / 2 ^ 52) * 2 ^ ((x.exponent : ℤ) - 1023) : ℝ) : EReal)

/-- The number that a pattern denotes, unless it is a NaN. -/
noncomputable def value (x : Binary64) : EReal :=
  if x.isNegative then -x.size else x.size

/-! ## Counting numbers upwards -/

/-- How many units of the least number a finite pattern without its sign denotes. -/
def unitsOf (magnitude : Nat) : Nat :=
  if magnitude / 2 ^ 52 = 0 then magnitude % 2 ^ 52
  else (2 ^ 52 + magnitude % 2 ^ 52) * 2 ^ (magnitude / 2 ^ 52 - 1)

theorem unitsOf_lt (m : Nat) : unitsOf m < 2 ^ (m / 2 ^ 52 + 52) := by
  have fraction : m % 2 ^ 52 < 2 ^ 52 := Nat.mod_lt _ (Nat.two_pow_pos 52)
  unfold unitsOf
  split
  · next zero =>
    rw [zero, Nat.zero_add]
    exact fraction
  · next normal =>
    have split : m / 2 ^ 52 + 52 = 53 + (m / 2 ^ 52 - 1) := by omega
    rw [split, Nat.pow_add]
    exact Nat.mul_lt_mul_of_pos_right (by omega) (Nat.two_pow_pos _)

theorem le_unitsOf {m : Nat} (normal : m / 2 ^ 52 ≠ 0) : 2 ^ (m / 2 ^ 52 + 51) ≤ unitsOf m := by
  have split : m / 2 ^ 52 + 51 = 52 + (m / 2 ^ 52 - 1) := by omega
  rw [unitsOf, if_neg normal, split, Nat.pow_add]
  exact Nat.mul_le_mul_right _ (Nat.le_add_right _ _)

theorem unitsOf_mono {m k : Nat} (le : m ≤ k) : unitsOf m ≤ unitsOf k := by
  rcases Nat.lt_or_eq_of_le (Nat.div_le_div_right (c := 2 ^ 52) le) with less | same
  · -- A greater exponent outweighs every fraction.
    calc unitsOf m ≤ 2 ^ (m / 2 ^ 52 + 52) := Nat.le_of_lt (unitsOf_lt m)
      _ ≤ 2 ^ (k / 2 ^ 52 + 51) := Nat.pow_le_pow_right (Nat.zero_lt_two) (by omega)
      _ ≤ unitsOf k := le_unitsOf (by omega)
  · have fractions : m % 2 ^ 52 ≤ k % 2 ^ 52 := by omega
    unfold unitsOf
    rw [same]
    split
    · exact fractions
    · exact Nat.mul_le_mul_right _ (Nat.add_le_add_left fractions _)

theorem unitsOf_magnitude (x : Binary64) :
    unitsOf x.magnitude =
      if x.exponent = 0 then x.fraction else (2 ^ 52 + x.fraction) * 2 ^ (x.exponent - 1) := rfl

/-- A finite number in units of the least one. -/
theorem size_eq {x : Binary64} (finite : x.exponent ≠ 2047) :
    x.size = ((unitsOf x.magnitude * 2 ^ (-1074 : ℤ) : ℝ) : EReal) := by
  rw [size, unitsOf_magnitude]
  by_cases zero : x.exponent = 0
  · have least : (2 : ℝ) ^ (-1074 : ℤ) = 2 ^ (-1022 : ℤ) / 2 ^ 52 := by
      rw [← zpow_natCast, ← zpow_sub₀ two_ne_zero]
      norm_num
    rw [if_pos zero, if_pos zero, least, EReal.coe_eq_coe_iff]
    ring
  · have scale : (2 : ℝ) ^ ((x.exponent : ℤ) - 1023) =
        2 ^ 52 * (2 ^ (x.exponent - 1) * 2 ^ (-1074 : ℤ)) := by
      rw [← zpow_natCast, ← zpow_natCast, ← zpow_add₀ two_ne_zero, ← zpow_add₀ two_ne_zero]
      congr 1
      omega
    rw [if_neg zero, if_neg finite, if_neg zero, scale, EReal.coe_eq_coe_iff]
    push_cast
    ring

theorem size_nonneg (x : Binary64) : 0 ≤ x.size := by
  by_cases finite : x.exponent = 2047
  · rw [size, if_neg (by omega), if_pos finite]
    exact le_top
  · rw [size_eq finite]
    exact_mod_cast (by positivity : (0 : ℝ) ≤ unitsOf x.magnitude * 2 ^ (-1074 : ℤ))

/-- Of two patterns that are no NaN the one with the greater magnitude denotes no smaller size. -/
theorem size_mono {x y : Binary64} (le : x.magnitude ≤ y.magnitude) (number : y.isNaN = false) :
    x.size ≤ y.size := by
  have bound : y.magnitude ≤ 0x7FF0000000000000 := Nat.not_lt.1 (of_decide_eq_false number)
  by_cases infinite : y.exponent = 2047
  · have top : y.size = ⊤ := by rw [size, if_neg (by omega), if_pos infinite]
    rw [top]
    exact le_top
  · have exponents : x.exponent ≤ y.exponent := Nat.div_le_div_right le
    have below : y.exponent ≤ 2047 := by
      unfold exponent
      omega
    rw [size_eq (by omega), size_eq infinite, EReal.coe_le_coe_iff]
    have units : (unitsOf x.magnitude : ℝ) ≤ unitsOf y.magnitude := by
      exact_mod_cast unitsOf_mono le
    exact mul_le_mul_of_nonneg_right units (by positivity)

/-! ## Places in the total order -/

theorem value_mono {x y : Binary64} (le : x.rank ≤ y.rank) (numberX : x.isNaN = false)
    (numberY : y.isNaN = false) : x.value ≤ y.value := by
  unfold rank at le
  unfold value
  cases signX : x.isNegative <;> cases signY : y.isNegative <;>
    simp only [signX, signY, if_true, if_false, Bool.false_eq_true] at le ⊢
  · exact size_mono (by omega) numberY
  · omega
  · have nonpos : -x.size ≤ 0 := EReal.neg_le_zero.2 (size_nonneg x)
    exact nonpos.trans (size_nonneg y)
  · exact EReal.neg_le_neg_iff.2 (size_mono (by omega) numberX)

/-- A smaller number has its place before a greater one. -/
theorem rank_lt_of_value_lt {x y : Binary64} (numberX : x.isNaN = false) (numberY : y.isNaN = false)
    (less : x.value < y.value) : x.rank < y.rank := by
  by_contra behind
  exact absurd (value_mono (Int.not_lt.1 behind) numberY numberX) (not_le.2 less)

/-- Negative NaNs come before all numbers. -/
theorem rank_lt_of_isNaN {x y : Binary64} (nan : x.isNaN = true) (negative : x.isNegative = true)
    (number : y.isNaN = false) : x.rank < y.rank := by
  have beyond : 0x7FF0000000000000 < x.magnitude := of_decide_eq_true nan
  have bound : y.magnitude ≤ 0x7FF0000000000000 := Nat.not_lt.1 (of_decide_eq_false number)
  unfold rank
  rw [if_pos negative]
  split <;> omega

/-- Positive NaNs come after all numbers. -/
theorem lt_rank_of_isNaN {x y : Binary64} (nan : x.isNaN = true) (positive : x.isNegative = false)
    (number : y.isNaN = false) : y.rank < x.rank := by
  have beyond : 0x7FF0000000000000 < x.magnitude := of_decide_eq_true nan
  have bound : y.magnitude ≤ 0x7FF0000000000000 := Nat.not_lt.1 (of_decide_eq_false number)
  unfold rank
  rw [positive, if_neg Bool.false_ne_true]
  split <;> omega

/-- The zero with a sign comes before the zero without. -/
theorem compare_negativeZero : compare ⟨0x8000000000000000⟩ ⟨0⟩ = .lt := by
  decide

end SessionGrid.Binary64
