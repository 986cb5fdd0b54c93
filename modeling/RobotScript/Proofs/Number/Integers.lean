import RobotScript.Proofs.Number.Rounding

namespace RobotScript

namespace FiniteFloat

variable {F : FloatFormat}

theorem canonical_zero (F : FloatFormat) : F.Canonical 0 F.minExponent :=
  ⟨Nat.two_pow_pos _, le_refl _, F.min_le_max, .inl rfl⟩

/-- A number with no more bits than the format has, shifted until its significand is full. -/
theorem canonical_shifted (least : F.minExponent ≤ 1 - F.precision) (greatest : 0 ≤ F.maxExponent) {n : Nat}
    (nonzero : n ≠ 0) (small : n < Nat.pow 2 F.precision) :
    F.Canonical (n * Nat.pow 2 (F.precision - 1 - n.log2)) (-((F.precision - 1 - n.log2 : Nat) : Int)) := by
  have fits : n.log2 < F.precision := (Nat.log2_lt nonzero).mpr small
  have upper : n * 2 ^ (F.precision - 1 - n.log2) < 2 ^ F.precision :=
    calc n * 2 ^ (F.precision - 1 - n.log2)
        < 2 ^ (n.log2 + 1) * 2 ^ (F.precision - 1 - n.log2) :=
          Nat.mul_lt_mul_of_pos_right Nat.lt_log2_self (Nat.two_pow_pos _)
      _ = 2 ^ F.precision := by
        rw [← pow_add]
        congr 1
        omega
  have lower : 2 ^ (F.precision - 1) ≤ n * 2 ^ (F.precision - 1 - n.log2) :=
    calc 2 ^ (F.precision - 1) = 2 ^ n.log2 * 2 ^ (F.precision - 1 - n.log2) := by
          rw [← pow_add]
          congr 1
          omega
      _ ≤ n * 2 ^ (F.precision - 1 - n.log2) := Nat.mul_le_mul_right _ (Nat.log2_self_le nonzero)
  exact ⟨upper, by omega, by omega, .inr lower⟩

/-- Each of the small numbers is a value of the format, with either sign. -/
theorem exists_value (least : F.minExponent ≤ 1 - F.precision) (greatest : 0 ≤ F.maxExponent) (negative : Bool)
    {n : Nat} (small : n < Nat.pow 2 F.precision) : ∃ x : FiniteFloat F, x.negative = negative ∧ x.value = n := by
  by_cases zero : n = 0
  · refine ⟨⟨negative, 0, F.minExponent, canonical_zero F⟩, rfl, ?_⟩
    simp [value, zero]
  · refine ⟨⟨negative, _, _, canonical_shifted least greatest zero small⟩, rfl, ?_⟩
    have power : (2 : ℚ) ^ (F.precision - 1 - n.log2) ≠ 0 := pow_ne_zero _ two_ne_zero
    simp only [value, Nat.pow_eq, Nat.cast_mul, Nat.cast_pow, Nat.cast_ofNat, zpow_neg, zpow_natCast]
    field_simp

/-- Rounding leaves a value that is a whole number already. -/
theorem round_of_value {x : FiniteFloat F} {n : Nat} (same : x.value = n) :
    x.round = if x.negative then -(n : Int) else n := by
  have positive := x.denominator_pos
  have numerator : x.numerator = n * x.denominator := by
    have fraction : (x.numerator : ℚ) / x.denominator = (n : ℚ) / (1 : Nat) := by
      rw [← value_eq, same, Nat.cast_one, div_one]
    simpa using cross_of_ratio_eq positive Nat.one_pos fraction
  have magnitude : (2 * x.numerator + x.denominator) / (2 * x.denominator) = n := by
    rw [numerator, ← Nat.mul_assoc, Nat.mul_right_comm, Nat.add_comm,
      Nat.add_mul_div_left _ _ (by omega), Nat.div_eq_of_lt (by omega), Nat.zero_add]
  rw [round]
  simp only [magnitude]

end FiniteFloat

/-- An integer of few bits survives the way to the format and back. -/
theorem Floating.round_ofInt {F : FloatFormat} (least : F.minExponent ≤ 1 - F.precision)
    (greatest : 0 ≤ F.maxExponent) {n : Int} (small : n.natAbs < Nat.pow 2 F.precision) :
    ∃ x : FiniteFloat F, ofInt F n = .finite x ∧ x.round = n := by
  obtain ⟨x, sign, same⟩ := FiniteFloat.exists_value least greatest (decide (n < 0)) small
  refine ⟨x, ?_, ?_⟩
  · have fraction : (n.natAbs : ℚ) / (1 : Nat) = x.value := by rw [same, Nat.cast_one, div_one]
    rw [ofInt, ← sign]
    exact x.ofRatio_value Nat.one_pos fraction
  · rw [FiniteFloat.round_of_value same, sign]
    by_cases negative : n < 0
    · simp only [negative, decide_true, if_true]
      omega
    · simp only [negative, decide_false, Bool.false_eq_true, if_false]
      omega

end RobotScript
