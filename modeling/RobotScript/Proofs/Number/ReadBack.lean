import Mathlib.Tactic.NormNum
import Mathlib.Tactic.Ring
import RobotScript.Proofs.Number.Digits
import RobotScript.Proofs.Number.Rounding
import RobotScript.Proofs.Text.Runs

namespace RobotScript

theorem digits_length_bounds {n : Nat} (nonzero : n ≠ 0) :
    10 ^ ((digits n).length - 1) ≤ n ∧ n < 10 ^ (digits n).length := by
  have length : 0 < (digits n).length := List.length_pos_of_ne_nil (digits_ne_nil n)
  refine ⟨?_, (digits_length_le_iff length).mp (Nat.le_refl _)⟩
  by_cases short : (digits n).length = 1
  · rw [short, Nat.sub_self, Nat.pow_zero]
    omega
  · refine Nat.le_of_not_lt fun below => ?_
    have := (digits_length_le_iff (by omega)).mpr below
    omega

theorem ten_zpow_le {e : Int} (least : e ≤ 0) : (10 : ℚ) ^ e ≤ 2 ^ e := by
  rw [← neg_neg e, zpow_neg, zpow_neg (2 : ℚ)]
  exact inv_anti₀ (by positivity) (zpow_le_zpow_left₀ (by omega) zero_le_two (by norm_num))

namespace Decimal

/-- The magnitude of a decimal. -/
def value (d : Decimal) : ℚ := d.coefficient * 10 ^ d.exponent

/-- The power of ten above a decimal. -/
def magnitude (d : Decimal) : Int := (digits d.coefficient).length + d.exponent

theorem value_bounds {d : Decimal} (nonzero : d.coefficient ≠ 0) :
    (10 : ℚ) ^ (d.magnitude - 1) ≤ d.value ∧ d.value < 10 ^ d.magnitude := by
  obtain ⟨lower, upper⟩ := digits_length_bounds nonzero
  have low : (10 : ℚ) ^ ((digits d.coefficient).length - 1) ≤ d.coefficient := by exact_mod_cast lower
  have high : (d.coefficient : ℚ) < 10 ^ (digits d.coefficient).length := by exact_mod_cast upper
  have length : 0 < (digits d.coefficient).length := List.length_pos_of_ne_nil (digits_ne_nil _)
  have before : d.magnitude - 1 = ((digits d.coefficient).length - 1 : Nat) + d.exponent := by
    rw [magnitude]
    omega
  constructor
  · rw [before, zpow_add₀ (by norm_num), zpow_natCast, value]
    gcongr
  · rw [magnitude, zpow_add₀ (by norm_num), zpow_natCast, value]
    gcongr

theorem value_eq_zero_iff {d : Decimal} : d.value = 0 ↔ d.coefficient = 0 := by
  have power : (10 : ℚ) ^ d.exponent ≠ 0 := zpow_ne_zero _ (by norm_num)
  simp [value, power]

theorem scale_pos (d : Decimal) : 0 < Nat.pow 10 (-d.exponent).toNat := Nat.pow_pos (by decide)

theorem value_eq_ratio (d : Decimal) :
    ((d.coefficient * Nat.pow 10 d.exponent.toNat : Nat) : ℚ) / (Nat.pow 10 (-d.exponent).toNat : Nat) =
      d.value := by
  rw [value, zpow_eq_div (by norm_num), ← mul_div_assoc]
  norm_cast

/-- Two decimals of one value and sign round alike, however many zeros their coefficients end in. -/
theorem toFloating_congr {F : FloatFormat} {d e : Decimal} (sign : d.negative = e.negative)
    (same : d.value = e.value) : d.toFloating F = e.toFloating F := by
  by_cases zero : d.coefficient = 0
  · have zero' : e.coefficient = 0 := value_eq_zero_iff.mp (same.symm.trans (value_eq_zero_iff.mpr zero))
    simp only [toFloating, zero, zero', if_true, sign]
  · have nonzero : e.coefficient ≠ 0 := fun zero' =>
      zero (value_eq_zero_iff.mp (same.trans (value_eq_zero_iff.mpr zero')))
    have magnitudes : d.magnitude = e.magnitude := by
      obtain ⟨lower, upper⟩ := value_bounds zero
      obtain ⟨lower', upper'⟩ := value_bounds nonzero
      rw [same] at lower upper
      have := zpow_bounds_unique (by norm_num) lower (by rwa [sub_add_cancel]) lower' (by rwa [sub_add_cancel])
      omega
    have ratios := (value_eq_ratio d).trans (same.trans (value_eq_ratio e).symm)
    simp only [magnitude] at magnitudes
    simp only [toFloating, zero, nonzero, if_false, magnitudes, sign]
    rw [Floating.ofRatio_congr d.scale_pos e.scale_pos ratios]

/-- The two quick tests refuse no value of the format. -/
theorem toFloating_eq {F : FloatFormat} (least : F.minExponent ≤ 0) (greatest : 0 ≤ F.precision + F.maxExponent)
    {d : Decimal} {x : FiniteFloat F} (sign : d.negative = x.negative) (same : d.value = x.value) :
    d.toFloating F = .finite x := by
  have rounded := x.ofRatio_value d.scale_pos ((value_eq_ratio d).trans same)
  by_cases zero : d.coefficient = 0
  · simp only [zero, Nat.zero_mul] at rounded
    simp only [toFloating, zero, if_true, sign]
    exact rounded
  · have nonzero : x.significand ≠ 0 := by
      intro noSignificand
      rw [FiniteFloat.value, noSignificand, Nat.cast_zero, zero_mul, value_eq_zero_iff] at same
      exact zero same
    obtain ⟨lower, upper⟩ := value_bounds zero
    obtain ⟨lower', upper'⟩ := FiniteFloat.value_bounds nonzero
    obtain ⟨-, atLeast, atMost, -⟩ := x.canonical
    have fits := (FiniteFloat.log2_significand nonzero).1
    have notLarge : d.magnitude ≤ F.precision + F.maxExponent := by
      have below : (10 : ℚ) ^ (d.magnitude - 1) < 10 ^ ((F.precision : Int) + F.maxExponent) :=
        calc (10 : ℚ) ^ (d.magnitude - 1) ≤ x.value := same ▸ lower
          _ < 2 ^ (x.significand.log2 + x.exponent + 1) := upper'
          _ ≤ 2 ^ ((F.precision : Int) + F.maxExponent) := zpow_le_zpow_right₀ one_le_two (by omega)
          _ ≤ 10 ^ ((F.precision : Int) + F.maxExponent) := zpow_le_zpow_left₀ greatest zero_le_two (by norm_num)
      have := (zpow_lt_zpow_iff_right₀ (by norm_num)).mp below
      omega
    have notSmall : F.minExponent ≤ d.magnitude := by
      have above : (10 : ℚ) ^ F.minExponent < 10 ^ d.magnitude :=
        calc (10 : ℚ) ^ F.minExponent ≤ 2 ^ F.minExponent := ten_zpow_le least
          _ ≤ 2 ^ (x.significand.log2 + x.exponent) := zpow_le_zpow_right₀ one_le_two (by omega)
          _ ≤ d.value := same ▸ lower'
          _ < 10 ^ d.magnitude := upper
      exact ((zpow_lt_zpow_iff_right₀ (by norm_num)).mp above).le
    simp only [magnitude] at notLarge notSmall
    simp only [toFloating, zero, if_false, not_lt.mpr notLarge, not_lt.mpr notSmall, sign]
    exact rounded

end Decimal

namespace FiniteFloat

variable {F : FloatFormat}

theorem value_exactDecimal (x : FiniteFloat F) : x.exactDecimal.value = x.value := by
  rw [Decimal.value, value, exactDecimal]
  push_cast
  rcases le_total 0 x.exponent with whole | fraction
  · obtain ⟨n, exponent⟩ := Int.eq_ofNat_of_zero_le whole
    simp [exponent]
  · obtain ⟨n, exponent⟩ : ∃ n : Nat, x.exponent = -n := ⟨(-x.exponent).toNat, by omega⟩
    have factors : (10 : ℚ) ^ n = 5 ^ n * 2 ^ n := by rw [← mul_pow]; norm_num
    simp only [exponent, Int.toNat_neg_natCast, Nat.pow_eq, pow_zero, Nat.cast_one, mul_one, neg_neg,
      Int.toNat_natCast, Nat.cast_pow, Nat.cast_ofNat, Left.neg_nonpos_iff, Nat.cast_nonneg, inf_of_le_left,
      zpow_neg, zpow_natCast, factors]
    field_simp

theorem toFloating_decimalOf? {tie : Tie} {x : FiniteFloat F} {count : Nat} {d : Decimal}
    (found : x.decimalOf? tie count = some d) : d.toFloating F = .finite x := by
  unfold decimalOf? at found
  dsimp only at found
  split at found
  · cases found
  · rename_i below _
    cases found
    exact of_decide_eq_true below
  · rename_i _ above
    cases found
    exact of_decide_eq_true above
  · rename_i below above
    split at found
    · cases found
      exact of_decide_eq_true below
    · split at found
      · cases found
        exact of_decide_eq_true above
      · cases tie with
        | up =>
          cases found
          exact of_decide_eq_true above
        | even =>
          cases found
          split
          · exact of_decide_eq_true below
          · exact of_decide_eq_true above

/-- The digits that are written read back: each candidate was tried, and the exact decimal needs no try. -/
theorem toFloating_shortest (least : F.minExponent ≤ 0) (greatest : 0 ≤ F.precision + F.maxExponent)
    (tie : Tie) (x : FiniteFloat F) : (x.shortest tie).toFloating F = .finite x := by
  unfold shortest
  split
  · rename_i zero
    exact Decimal.toFloating_eq least greatest rfl (by simp [Decimal.value, value, zero])
  · cases found : (List.range 17).findSome? fun i => x.decimalOf? tie (i + 1) with
    | none => exact Decimal.toFloating_eq least greatest rfl (value_exactDecimal x)
    | some d =>
      obtain ⟨i, -, found⟩ := List.exists_of_findSome?_eq_some found
      exact toFloating_decimalOf? found

end FiniteFloat

namespace Decimal

/-- A point and the digits behind it, where there are any. -/
def pointed : List Char → List Char
  | [] => []
  | fraction => '.' :: fraction

theorem pointed_of_ne_nil {s : List Char} (nonempty : s ≠ []) : pointed s = '.' :: s := by
  obtain ⟨c, s, rfl⟩ := List.exists_cons_of_ne_nil nonempty
  rfl

theorem isDigit_of_mem_zeros {n : Nat} : ∀ c ∈ List.replicate n '0', isDigit c = true := by
  intro c member
  rw [List.eq_of_mem_replicate member]
  decide

theorem significant_spec {d : Decimal} (nonzero : d.coefficient ≠ 0) :
    (∀ c ∈ d.significant.1, isDigit c = true) ∧ d.significant.1 ≠ [] ∧
      (ofDigits d.significant.1 : ℚ) * 10 ^ d.significant.2 = d.value := by
  obtain ⟨zeros, split⟩ : ∃ k, digits d.coefficient = d.significant.1 ++ List.replicate k '0' := by
    refine ⟨((digits d.coefficient).reverse.takeWhile (· == '0')).length, ?_⟩
    have run : (digits d.coefficient).reverse.takeWhile (· == '0') =
        List.replicate ((digits d.coefficient).reverse.takeWhile (· == '0')).length '0' :=
      List.eq_replicate_of_mem fun c member => eq_of_beq (List.all_eq_true.mp List.all_takeWhile c member)
    rw [← List.reverse_inj, List.reverse_append, List.reverse_replicate, ← run, significant,
      List.reverse_reverse, List.takeWhile_append_dropWhile]
  have number : ofDigits d.significant.1 * 10 ^ zeros = d.coefficient := by
    rw [← ofDigits_digits d.coefficient, split, ofDigits_append, ofDigits_zeros, List.length_replicate,
      Nat.add_zero]
  have exponent : d.significant.2 = d.exponent + zeros := by
    have length := congrArg List.length split
    rw [List.length_append, List.length_replicate] at length
    show d.exponent + ((digits d.coefficient).length - d.significant.1.length : Int) = d.exponent + zeros
    omega
  refine ⟨fun c member => ?_, fun empty => ?_, ?_⟩
  · exact isDigit_of_mem_digits (split ▸ List.mem_append_left _ member)
  · rw [empty] at number
    exact nonzero (number.symm.trans (Nat.zero_mul _))
  · rw [exponent, zpow_add₀ (by norm_num), zpow_natCast, value, ← number]
    push_cast
    ring

/-- The digits before and behind the point of a decimal, as it is printed. -/
structure Shows (d : Decimal) (whole fraction : List Char) : Prop where
  nonempty : whole ≠ []
  digit : ∀ c ∈ whole ++ fraction, isDigit c = true
  shape : d.plain = if d.negative then '-' :: (whole ++ pointed fraction) else whole ++ pointed fraction
  same : (ofDigits (whole ++ fraction) : ℚ) * 10 ^ (-(fraction.length : Int)) = d.value

section

variable {d : Decimal}

theorem shows_zero (zero : d.coefficient = 0) : Shows d ['0'] [] where
  nonempty := List.cons_ne_nil _ _
  digit := List.forall_mem_singleton.mpr rfl
  shape := by simp [plain, zero, pointed]
  same := by simp [value, zero, ofDigits]

variable {kept : List Char} (nonzero : d.coefficient ≠ 0)
include nonzero

/-- The point lies behind all digits. -/
theorem shows_whole {zeros : Nat} (parts : d.significant = (kept, (zeros : Int))) :
    Shows d (kept ++ List.replicate zeros '0') [] := by
  obtain ⟨digit, nonempty, same⟩ := significant_spec nonzero
  rw [parts] at digit nonempty same
  refine ⟨by simp [nonempty], ?_, ?_, ?_⟩
  · rw [List.append_nil]
    exact List.forall_mem_append.mpr ⟨digit, isDigit_of_mem_zeros⟩
  · simp [plain, nonzero, parts, pointed]
  · rw [List.append_nil, ofDigits_append, ofDigits_zeros, List.length_replicate, ← same]
    simp

variable {places : Nat} (parts : d.significant = (kept, -(places : Int))) (somePlaces : places ≠ 0)
include parts somePlaces

/-- The point lies between two digits. -/
theorem shows_inside (inside : places < kept.length) :
    Shows d (kept.take (kept.length - places)) (kept.drop (kept.length - places)) := by
  obtain ⟨digit, nonempty, same⟩ := significant_spec nonzero
  rw [parts] at digit nonempty same
  have behind : (kept.drop (kept.length - places)).length = places := by
    rw [List.length_drop]
    omega
  have point := pointed_of_ne_nil (s := kept.drop (kept.length - places)) (List.ne_nil_of_length_pos (by omega))
  refine ⟨?_, ?_, ?_, ?_⟩
  · exact List.ne_nil_of_length_pos (by rw [List.length_take]; omega)
  · rwa [List.take_append_drop]
  · simp [plain, nonzero, parts, point, inside, somePlaces]
  · rw [List.take_append_drop, behind]
    exact same

/-- The point lies before all digits, with zeros between. -/
theorem shows_leading (outside : ¬ places < kept.length) :
    Shows d ['0'] (List.replicate (places - kept.length) '0' ++ kept) := by
  obtain ⟨digit, nonempty, same⟩ := significant_spec nonzero
  rw [parts] at digit nonempty same
  have behind : (List.replicate (places - kept.length) '0' ++ kept).length = places := by
    rw [List.length_append, List.length_replicate]
    omega
  have point := pointed_of_ne_nil (s := List.replicate (places - kept.length) '0' ++ kept) (by simp [nonempty])
  have leading : ofDigits (['0'] ++ (List.replicate (places - kept.length) '0' ++ kept)) = ofDigits kept := by
    rw [← List.append_assoc, ofDigits_append, ← List.replicate_one, ← List.replicate_add, ofDigits_zeros]
    omega
  refine ⟨List.cons_ne_nil _ _, ?_, ?_, ?_⟩
  · exact List.forall_mem_append.mpr
      ⟨List.forall_mem_singleton.mpr rfl, List.forall_mem_append.mpr ⟨isDigit_of_mem_zeros, digit⟩⟩
  · simp [plain, nonzero, parts, point, outside, somePlaces]
  · rw [leading, behind]
    exact same

end

theorem exists_shows (d : Decimal) : ∃ whole fraction, Shows d whole fraction := by
  by_cases zero : d.coefficient = 0
  · exact ⟨_, _, shows_zero zero⟩
  · obtain ⟨kept, exponent, parts⟩ : ∃ kept exponent, d.significant = (kept, exponent) := ⟨_, _, rfl⟩
    rcases le_or_gt 0 exponent with whole | fraction
    · obtain ⟨zeros, rfl⟩ := Int.eq_ofNat_of_zero_le whole
      exact ⟨_, _, shows_whole zero parts⟩
    · obtain ⟨places, rfl⟩ : ∃ n : Nat, exponent = -n := ⟨(-exponent).toNat, by omega⟩
      by_cases inside : places < kept.length
      · exact ⟨_, _, shows_inside zero parts (by omega) inside⟩
      · exact ⟨_, _, shows_leading zero parts (by omega) inside⟩

theorem read?_pointed (negative : Bool) {whole fraction : List Char} (nonempty : whole ≠ [])
    (digit : ∀ c ∈ whole ++ fraction, isDigit c = true) :
    read? negative (whole ++ pointed fraction) =
      some ⟨negative, ofDigits (whole ++ fraction), -fraction.length⟩ := by
  obtain ⟨inWhole, inFraction⟩ := List.forall_mem_append.mp digit
  have stop : Text.Stops isDigit (pointed fraction) := by
    cases fraction with
    | nil => exact Text.stops_nil _
    | cons c fraction => exact Text.stops_cons _ (by decide)
  have run := Text.takeWhile_append_of_stops inWhole stop
  have rest := Text.dropWhile_append_of_stops inWhole stop
  simp only [read?, run, rest]
  cases fraction with
  | nil => simp [pointed, nonempty, readExponent?]
  | cons c fraction =>
    have runFraction := Text.takeWhile_append_of_stops inFraction (Text.stops_nil _)
    have restFraction := Text.dropWhile_append_of_stops inFraction (Text.stops_nil _)
    rw [List.append_nil] at runFraction restFraction
    simp [pointed, runFraction, restFraction, readExponent?]

end Decimal

theorem toLower_of_isDigit {c : Char} (digit : isDigit c = true) : c.toLower = c := by
  unfold Char.toLower
  split
  · rename_i upper
    simp only [isDigit, Bool.and_eq_true, decide_eq_true_eq, Char.le_def, UInt32.le_iff_toNat_le] at digit upper
    exact absurd (upper.1.trans digit.2) (by decide)
  · rfl

namespace Floating

variable {F : FloatFormat}

/-- What starts with a digit is no name of an infinity or of no number. -/
theorem read?_of_isDigit {c : Char} {s : List Char} (digit : isDigit c = true) (negative : Bool) :
    read? F (if negative then '-' :: c :: s else c :: s) =
      (Decimal.read? negative (c :: s)).map (Decimal.toFloating F) := by
  have sign : splitSign (if negative then '-' :: c :: s else c :: s) = (negative, c :: s) := by
    cases negative with
    | true => rfl
    | false => exact splitSign_of_isDigit s digit
  have unnamed {letter : Char} (rest : List Char) (other : isDigit letter = false) :
      String.ofList ((c :: s).map Char.toLower) ≠ String.ofList (letter :: rest) := by
    intro same
    have lists := String.ofList_injective same
    rw [List.map_cons, toLower_of_isDigit digit] at lists
    rw [(List.cons.inj lists).1, other] at digit
    cases digit
  have noInf := unnamed ['n', 'f'] (show isDigit 'i' = false by decide)
  have noInfinity := unnamed ['n', 'f', 'i', 'n', 'i', 't', 'y'] (show isDigit 'i' = false by decide)
  have noNan := unnamed ['a', 'n'] (show isDigit 'n' = false by decide)
  unfold read?
  rw [sign]
  dsimp only
  rw [if_neg (not_or.mpr ⟨noInf, noInfinity⟩), if_neg noNan]

/-- Reading what is printed for a finite value gives the value back. -/
theorem read?_plain (least : F.minExponent ≤ 0) (greatest : 0 ≤ F.precision + F.maxExponent)
    (x : FiniteFloat F) : read? F (plain (.finite x)) = some (.finite x) := by
  obtain ⟨whole, fraction, nonempty, digit, shape, same⟩ := (x.shortest .up).exists_shows
  have decimal := Decimal.read?_pointed (x.shortest .up).negative nonempty digit
  obtain ⟨c, whole, rfl⟩ := List.exists_cons_of_ne_nil nonempty
  rw [plain, shape, List.cons_append, read?_of_isDigit (digit c (by simp)), ← List.cons_append, decimal,
    Option.map_some, ← FiniteFloat.toFloating_shortest least greatest .up x]
  exact congrArg some (Decimal.toFloating_congr rfl same)

end Floating

end RobotScript
