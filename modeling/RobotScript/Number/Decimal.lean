import RobotScript.Number.Floating

namespace RobotScript

/-- The number `± coefficient * 10 ^ exponent`. -/
structure Decimal where
  negative : Bool
  coefficient : Nat
  exponent : Int
  deriving DecidableEq

/-- The digits of `n` in base ten. -/
def digits (n : Nat) : List Char := Nat.toDigits 10 n

/-- The number that a run of digits stands for. -/
def ofDigits (s : List Char) : Nat := s.foldl (fun n c => 10 * n + (c.toNat - '0'.toNat)) 0

namespace Decimal

/-- The same number with no zero at the end of the coefficient, which is given by its digits. -/
def significant (d : Decimal) : List Char × Int :=
  let all := digits d.coefficient
  let kept := (all.reverse.dropWhile (· == '0')).reverse
  (kept, d.exponent + (all.length - kept.length))

/-- The value of the format nearest to `d`. The first two tests keep the powers of ten small: the
number is at least `10 ^ (length - 1 + exponent)` and below `10 ^ (length + exponent)`. -/
def toFloating (F : FloatFormat) (d : Decimal) : Floating F :=
  let magnitude : Int := (digits d.coefficient).length + d.exponent
  if d.coefficient = 0 then .zero F d.negative
  else if F.precision + F.maxExponent < magnitude then .infinite d.negative
  else if magnitude < F.minExponent then .zero F d.negative
  else
    .ofRatio F d.negative (d.coefficient * Nat.pow 10 d.exponent.toNat) (Nat.pow 10 (-d.exponent).toNat)

end Decimal

namespace FiniteFloat

variable {F : FloatFormat}

/-- Every finite value is a decimal, if a long one. -/
def exactDecimal (x : FiniteFloat F) : Decimal where
  negative := x.negative
  coefficient := x.significand * Nat.pow 2 x.exponent.toNat * Nat.pow 5 (-x.exponent).toNat
  exponent := min x.exponent 0

/-- The `k` with `10 ^ (k - 1) ≤ num / den < 10 ^ k`, for a positive fraction. -/
def decimalPoint (num den : Nat) : Int :=
  let k : Int := (digits num).length - (digits den).length
  if den * Nat.pow 10 k.toNat ≤ num * Nat.pow 10 (-k).toNat then k + 1 else k

/-- Which of two decimals equally near to a value is written. -/
inductive Tie
  | up
  | even

/-- A decimal of `count` digits that reads back as `x`: the nearer one of the two around `x`. -/
def decimalOf? (tie : Tie) (x : FiniteFloat F) (count : Nat) : Option Decimal :=
  let exponent := decimalPoint x.numerator x.denominator - count
  let num := x.numerator * Nat.pow 10 (-exponent).toNat
  let den := x.denominator * Nat.pow 10 exponent.toNat
  let below : Decimal := ⟨x.negative, num / den, exponent⟩
  let above : Decimal := ⟨x.negative, num / den + 1, exponent⟩
  match decide (below.toFloating F = .finite x), decide (above.toFloating F = .finite x) with
  | false, false => none
  | true, false => some below
  | false, true => some above
  | true, true =>
    let rest := 2 * (num % den)
    if rest < den then some below
    else if den < rest then some above
    else match tie with
      | .up => some above
      | .even => some (if below.coefficient % 2 = 0 then below else above)

/-- The decimal with the fewest digits that reads back as `x`. Seventeen are enough for the formats
in use; the exact decimal stands behind the search so that the result reads back in any format. -/
def shortest (tie : Tie) (x : FiniteFloat F) : Decimal :=
  if x.significand = 0 then ⟨x.negative, 0, 0⟩
  else ((List.range 17).findSome? fun i => x.decimalOf? tie (i + 1)).getD x.exactDecimal

end FiniteFloat

end RobotScript
