import Mathlib.Algebra.Order.Field.Power
import Mathlib.Algebra.Order.Field.Rat
import Mathlib.Tactic.FieldSimp
import Mathlib.Tactic.Positivity
import RobotScript.Number.Floating

namespace RobotScript

theorem divRoundEven_mul {k : Nat} (positive : 0 < k) (num den : Nat) :
    divRoundEven (num * k) (den * k) = divRoundEven num den := by
  have below : 2 * (num % den * k) < den * k ↔ 2 * (num % den) < den := by
    rw [← Nat.mul_assoc]
    exact Nat.mul_lt_mul_right positive
  have above : den * k < 2 * (num % den * k) ↔ den < 2 * (num % den) := by
    rw [← Nat.mul_assoc]
    exact Nat.mul_lt_mul_right positive
  simp only [divRoundEven, Nat.mul_div_mul_right _ _ positive, Nat.mul_mod_mul_right, below, above]

theorem divRoundEven_congr {a b c d : Nat} (left : 0 < b) (right : 0 < d) (cross : a * d = c * b) :
    divRoundEven a b = divRoundEven c d := by
  rw [← divRoundEven_mul right a b, ← divRoundEven_mul left c d, cross, Nat.mul_comm b d]

theorem divRoundEven_multiple (n : Nat) {k : Nat} (positive : 0 < k) : divRoundEven (n * k) k = n := by
  simp [divRoundEven, Nat.mul_div_cancel n positive, positive]

theorem zpow_eq_div {b : ℚ} (nonzero : b ≠ 0) (e : Int) : b ^ e = b ^ e.toNat / b ^ (-e).toNat := by
  rw [eq_div_iff (pow_ne_zero _ nonzero), ← zpow_natCast, ← zpow_natCast, ← zpow_add₀ nonzero]
  congr 1
  omega

/-- Between two neighbouring powers a number lies in one place only. -/
theorem zpow_bounds_unique {b x : ℚ} (large : 1 < b) {e f : Int} (lower : b ^ e ≤ x) (upper : x < b ^ (e + 1))
    (lower' : b ^ f ≤ x) (upper' : x < b ^ (f + 1)) : e = f := by
  have one := (zpow_lt_zpow_iff_right₀ large).mp (lower.trans_lt upper')
  have other := (zpow_lt_zpow_iff_right₀ large).mp (lower'.trans_lt upper)
  omega

theorem pow_two_le_ratio_iff {num den : Nat} (positive : 0 < den) (e : Int) :
    den * Nat.pow 2 e.toNat ≤ num * Nat.pow 2 (-e).toNat ↔ (2 : ℚ) ^ e ≤ num / den := by
  have denominator : (0 : ℚ) < den := by exact_mod_cast positive
  have power : (0 : ℚ) < 2 ^ (-e).toNat := by positivity
  rw [zpow_eq_div two_ne_zero, le_div_iff₀ denominator, div_mul_eq_mul_div, div_le_iff₀ power, mul_comm]
  norm_cast

/-- The lengths of numerator and denominator leave two candidates for the exponent of a fraction. -/
theorem ratio_bounds {num den : Nat} (numerator : 0 < num) (denominator : 0 < den) :
    (2 : ℚ) ^ ((num.log2 : Int) - den.log2 - 1) ≤ num / den ∧
      (num : ℚ) / den < 2 ^ ((num.log2 : Int) - den.log2 + 1) := by
  have positive : (0 : ℚ) < den := by exact_mod_cast denominator
  have lowNum : (2 : ℚ) ^ num.log2 ≤ num := by exact_mod_cast Nat.log2_self_le (by omega)
  have highNum : (num : ℚ) < 2 ^ (num.log2 + 1) := by exact_mod_cast Nat.lt_log2_self
  have lowDen : (2 : ℚ) ^ den.log2 ≤ den := by exact_mod_cast Nat.log2_self_le (by omega)
  have highDen : (den : ℚ) < 2 ^ (den.log2 + 1) := by exact_mod_cast Nat.lt_log2_self
  constructor
  · rw [le_div_iff₀ positive]
    calc (2 : ℚ) ^ ((num.log2 : Int) - den.log2 - 1) * den
        ≤ 2 ^ ((num.log2 : Int) - den.log2 - 1) * 2 ^ (den.log2 + 1) := by gcongr
      _ = 2 ^ num.log2 := by
        rw [← zpow_natCast, ← zpow_natCast, ← zpow_add₀ two_ne_zero]
        congr 1
        omega
      _ ≤ num := lowNum
  · rw [div_lt_iff₀ positive]
    calc (num : ℚ) < 2 ^ (num.log2 + 1) := highNum
      _ = 2 ^ ((num.log2 : Int) - den.log2 + 1) * 2 ^ den.log2 := by
        rw [← zpow_natCast, ← zpow_natCast, ← zpow_add₀ two_ne_zero]
        congr 1
        omega
      _ ≤ 2 ^ ((num.log2 : Int) - den.log2 + 1) * den := by gcongr

theorem binaryExponent_spec {num den : Nat} (numerator : 0 < num) (denominator : 0 < den) :
    (2 : ℚ) ^ binaryExponent num den ≤ num / den ∧ (num : ℚ) / den < 2 ^ (binaryExponent num den + 1) := by
  obtain ⟨lower, upper⟩ := ratio_bounds numerator denominator
  unfold binaryExponent
  dsimp only
  split
  · rename_i reaches
    exact ⟨(pow_two_le_ratio_iff denominator _).mp reaches, upper⟩
  · rename_i misses
    rw [pow_two_le_ratio_iff denominator, not_le] at misses
    exact ⟨lower, by rwa [sub_add_cancel]⟩

theorem binaryExponent_eq {num den : Nat} (numerator : 0 < num) (denominator : 0 < den) {e : Int}
    (lower : (2 : ℚ) ^ e ≤ num / den) (upper : (num : ℚ) / den < 2 ^ (e + 1)) : binaryExponent num den = e := by
  obtain ⟨lower', upper'⟩ := binaryExponent_spec numerator denominator
  exact zpow_bounds_unique one_lt_two lower' upper' lower upper

theorem cross_of_ratio_eq {a b c d : Nat} (left : 0 < b) (right : 0 < d) (same : (a : ℚ) / b = c / d) :
    a * d = c * b := by
  rw [div_eq_div_iff (by exact_mod_cast left.ne') (by exact_mod_cast right.ne')] at same
  exact_mod_cast same

/-- Rounding sees the ratio only, however it is written as a fraction. -/
theorem Floating.ofRatio_congr {F : FloatFormat} {negative : Bool} {a b c d : Nat} (left : 0 < b) (right : 0 < d)
    (same : (a : ℚ) / b = c / d) : ofRatio F negative a b = ofRatio F negative c d := by
  have cross := cross_of_ratio_eq left right same
  by_cases zero : a = 0
  · have zero' : c = 0 := by
      subst zero
      rw [Nat.zero_mul, eq_comm, Nat.mul_eq_zero] at cross
      omega
    simp only [ofRatio, zero, zero', if_true]
  · have positive : 0 < c := by
      refine Nat.pos_of_ne_zero fun zero' => zero ?_
      subst zero'
      rw [Nat.zero_mul, Nat.mul_eq_zero] at cross
      omega
    have exponent : binaryExponent a b = binaryExponent c d := by
      obtain ⟨lower, upper⟩ := binaryExponent_spec positive right
      rw [← same] at lower upper
      exact binaryExponent_eq (Nat.pos_of_ne_zero zero) left lower upper
    have significand (e : Int) : divRoundEven (a * Nat.pow 2 (-e).toNat) (b * Nat.pow 2 e.toNat) =
        divRoundEven (c * Nat.pow 2 (-e).toNat) (d * Nat.pow 2 e.toNat) := by
      refine divRoundEven_congr (Nat.mul_pos left (Nat.two_pow_pos _))
        (Nat.mul_pos right (Nat.two_pow_pos _)) ?_
      rw [Nat.mul_mul_mul_comm, cross, Nat.mul_mul_mul_comm]
    simp only [ofRatio, zero, positive.ne', if_false, exponent, significand]

namespace FiniteFloat

variable {F : FloatFormat}

/-- The magnitude of a finite value. -/
def value (x : FiniteFloat F) : ℚ := x.significand * 2 ^ x.exponent

theorem value_eq (x : FiniteFloat F) : x.value = x.numerator / x.denominator := by
  rw [value, zpow_eq_div two_ne_zero, numerator, denominator, ← mul_div_assoc]
  norm_cast

theorem denominator_pos (x : FiniteFloat F) : 0 < x.denominator := Nat.two_pow_pos _

theorem log2_significand {x : FiniteFloat F} (nonzero : x.significand ≠ 0) :
    x.significand.log2 < F.precision ∧
      (x.exponent = F.minExponent ∨ F.precision - 1 ≤ x.significand.log2) := by
  obtain ⟨small, -, -, full⟩ := x.canonical
  refine ⟨(Nat.log2_lt nonzero).mpr small, ?_⟩
  rcases full with least | full
  · exact .inl least
  · exact .inr ((Nat.le_log2 nonzero).mpr full)

theorem value_bounds {x : FiniteFloat F} (nonzero : x.significand ≠ 0) :
    (2 : ℚ) ^ (x.significand.log2 + x.exponent) ≤ x.value ∧
      x.value < 2 ^ (x.significand.log2 + x.exponent + 1) := by
  have low : (2 : ℚ) ^ x.significand.log2 ≤ x.significand := by exact_mod_cast Nat.log2_self_le nonzero
  have high : (x.significand : ℚ) < 2 ^ (x.significand.log2 + 1) := by exact_mod_cast Nat.lt_log2_self
  unfold value
  constructor
  · rw [zpow_add₀ two_ne_zero, zpow_natCast]
    gcongr
  · rw [add_right_comm, zpow_add₀ two_ne_zero, ← Nat.cast_succ, zpow_natCast]
    gcongr

theorem ofParts_self (x : FiniteFloat F) :
    Floating.ofParts F x.negative x.significand x.exponent = .finite x := by
  rw [Floating.ofParts, dif_pos x.canonical]

/-- A fraction that is a value of the format is rounded to that value. -/
theorem ofRatio_value (x : FiniteFloat F) {num den : Nat} (denominator : 0 < den)
    (same : (num : ℚ) / den = x.value) : Floating.ofRatio F x.negative num den = .finite x := by
  obtain ⟨small, least, greatest, full⟩ := x.canonical
  by_cases zero : x.significand = 0
  · have noNum : num = 0 := by simpa [value, zero, denominator.ne'] using same
    have atLeast : x.exponent = F.minExponent := by
      rcases full with atLeast | full
      · exact atLeast
      · exact absurd full (by simp [zero])
    have parts := ofParts_self x
    rw [zero, atLeast] at parts
    rw [Floating.ofRatio, if_pos noNum]
    exact parts
  · have fraction := value_eq x
    obtain ⟨lower, upper⟩ := value_bounds zero
    have positive : 0 < num := by
      refine Nat.pos_of_ne_zero fun noNum => ?_
      rw [← same, noNum, Nat.cast_zero, zero_div] at lower
      exact absurd lower (not_le.mpr (by positivity))
    have binary : binaryExponent num den = x.significand.log2 + x.exponent := by
      rw [← same] at lower upper
      exact binaryExponent_eq positive denominator lower upper
    have exponent : max F.minExponent (binaryExponent num den - (F.precision - 1)) = x.exponent := by
      have fits := log2_significand zero
      have := F.precision_pos
      omega
    have product : num * Nat.pow 2 (-x.exponent).toNat = x.significand * (den * Nat.pow 2 x.exponent.toNat) := by
      have cross := cross_of_ratio_eq denominator x.denominator_pos (same.trans fraction)
      rw [numerator, FiniteFloat.denominator] at cross
      rw [cross, Nat.mul_assoc, Nat.mul_comm den]
    have significand : divRoundEven (num * Nat.pow 2 (-x.exponent).toNat) (den * Nat.pow 2 x.exponent.toNat) =
        x.significand := by
      rw [product]
      exact divRoundEven_multiple _ (Nat.mul_pos denominator (Nat.two_pow_pos _))
    simp only [Floating.ofRatio, positive.ne', if_false, exponent, significand, Nat.ne_of_lt small]
    exact ofParts_self x

end FiniteFloat

end RobotScript
