namespace RobotScript

/-- A binary floating-point format: the finite values are `± significand * 2 ^ exponent` with a
significand of at most `precision` bits and an exponent between the two bounds. -/
structure FloatFormat where
  precision : Nat
  minExponent : Int
  maxExponent : Int
  precision_pos : 0 < precision := by decide
  min_le_max : minExponent ≤ maxExponent := by decide

namespace FloatFormat

def binary32 : FloatFormat where
  precision := 24
  minExponent := -149
  maxExponent := 104

def binary64 : FloatFormat where
  precision := 53
  minExponent := -1074
  maxExponent := 971

/-- Gives each magnitude one form: the significand is full unless the exponent is the least. -/
def Canonical (F : FloatFormat) (significand : Nat) (exponent : Int) : Prop :=
  significand < Nat.pow 2 F.precision ∧ F.minExponent ≤ exponent ∧ exponent ≤ F.maxExponent ∧
    (exponent = F.minExponent ∨ Nat.pow 2 (F.precision - 1) ≤ significand)

instance (F : FloatFormat) (significand : Nat) (exponent : Int) :
    Decidable (F.Canonical significand exponent) :=
  inferInstanceAs (Decidable (_ ∧ _))

end FloatFormat

/-- A finite value of a format. Zero has two of them, which differ in the sign. -/
structure FiniteFloat (F : FloatFormat) where
  negative : Bool
  significand : Nat
  exponent : Int
  canonical : F.Canonical significand exponent
  deriving DecidableEq

/-- A value of a format. All values that are not numbers count as one. -/
inductive Floating (F : FloatFormat)
  | nan
  | infinite (negative : Bool)
  | finite (x : FiniteFloat F)
  deriving DecidableEq

abbrev Double := Floating .binary64

abbrev Single := Floating .binary32

/-- The integer nearest to `num / den`; a half goes to the even neighbour. -/
def divRoundEven (num den : Nat) : Nat :=
  let quotient := num / den
  let rest := num % den
  if 2 * rest < den then quotient
  else if den < 2 * rest then quotient + 1
  else quotient + quotient % 2

/-- The `e` with `2 ^ e ≤ num / den < 2 ^ (e + 1)`, for a positive fraction. -/
def binaryExponent (num den : Nat) : Int :=
  let e : Int := num.log2 - den.log2
  if den * Nat.pow 2 e.toNat ≤ num * Nat.pow 2 (-e).toNat then e else e - 1

namespace Floating

variable {F G : FloatFormat}

/-- `± significand * 2 ^ exponent`, or an infinity where the format holds no such value. -/
def ofParts (F : FloatFormat) (negative : Bool) (significand : Nat) (exponent : Int) : Floating F :=
  if canonical : F.Canonical significand exponent then
    .finite ⟨negative, significand, exponent, canonical⟩
  else
    .infinite negative

def zero (F : FloatFormat) (negative : Bool) : Floating F := ofParts F negative 0 F.minExponent

/-- The value of the format nearest to `± num / den`; a half goes to the even significand. -/
def ofRatio (F : FloatFormat) (negative : Bool) (num den : Nat) : Floating F :=
  if num = 0 then zero F negative
  else
    let exponent := max F.minExponent (binaryExponent num den - (F.precision - 1))
    let significand :=
      divRoundEven (num * Nat.pow 2 (-exponent).toNat) (den * Nat.pow 2 exponent.toNat)
    if significand = Nat.pow 2 F.precision then
      ofParts F negative (Nat.pow 2 (F.precision - 1)) (exponent + 1)
    else
      ofParts F negative significand exponent

def ofInt (F : FloatFormat) (n : Int) : Floating F := ofRatio F (n < 0) n.natAbs 1

def finite? : Floating F → Option (FiniteFloat F)
  | .finite x => some x
  | _ => none

def isFinite (x : Floating F) : Bool := x.finite?.isSome

end Floating

namespace FiniteFloat

variable {F G : FloatFormat}

/-- The magnitude is the fraction `numerator / denominator`. -/
def numerator (x : FiniteFloat F) : Nat := x.significand * Nat.pow 2 x.exponent.toNat

def denominator (x : FiniteFloat F) : Nat := Nat.pow 2 (-x.exponent).toNat

def isZero (x : FiniteFloat F) : Bool := x.significand == 0

def neg (x : FiniteFloat F) : FiniteFloat F := { x with negative := !x.negative }

/-- The nearest integer; a half goes away from zero. -/
def round (x : FiniteFloat F) : Int :=
  let magnitude := (2 * x.numerator + x.denominator) / (2 * x.denominator)
  if x.negative then -magnitude else magnitude

def mul (x y : FiniteFloat F) : Floating F :=
  .ofRatio F (x.negative != y.negative) (x.numerator * y.numerator) (x.denominator * y.denominator)

/-- The quotient, for a divisor other than zero. -/
def div (x y : FiniteFloat F) : Floating F :=
  .ofRatio F (x.negative != y.negative) (x.numerator * y.denominator) (x.denominator * y.numerator)

end FiniteFloat

namespace Floating

variable {F : FloatFormat}

/-- The nearest value of another format. -/
def convert (G : FloatFormat) : Floating F → Floating G
  | .nan => .nan
  | .infinite negative => .infinite negative
  | .finite x => .ofRatio G x.negative x.numerator x.denominator

/-- Equality as numbers: the two zeros agree, and what is not a number differs from everything. -/
def agrees : Floating F → Floating F → Bool
  | .infinite a, .infinite b => a == b
  | .finite x, .finite y => x.isZero && y.isZero || x == y
  | _, _ => false

end Floating

end RobotScript
