import RobotScript.Number.Decimal

namespace RobotScript

def isDigit (c : Char) : Bool := '0' ≤ c && c ≤ '9'

/-- Splits a sign off; no sign is a plus. -/
def splitSign : List Char → Bool × List Char
  | '-' :: s => (true, s)
  | '+' :: s => (false, s)
  | s => (false, s)

/-- A run of digits alone. -/
def readDigits? (s : List Char) : Option Nat :=
  if s ≠ [] ∧ s.all isDigit then some (ofDigits s) else none

/-- Digits after an optional plus. -/
def readNat? : List Char → Option Nat
  | '+' :: s => readDigits? s
  | s => readDigits? s

/-- Digits after an optional sign. -/
def readInt? (s : List Char) : Option Int :=
  let (negative, s) := splitSign s
  (readDigits? s).map fun n => if negative then -n else n

def readUInt32? (s : List Char) : Option UInt32 :=
  (readNat? s).bind fun n => if n < UInt32.size then some (UInt32.ofNat n) else none

def readUInt64? (s : List Char) : Option UInt64 :=
  (readNat? s).bind fun n => if n < UInt64.size then some (UInt64.ofNat n) else none

def readInt32? (s : List Char) : Option Int32 :=
  (readInt? s).bind fun n =>
    if Int32.minValue.toInt ≤ n ∧ n ≤ Int32.maxValue.toInt then some (Int32.ofInt n) else none

def readInt64? (s : List Char) : Option Int64 :=
  (readInt? s).bind fun n =>
    if Int64.minValue.toInt ≤ n ∧ n ≤ Int64.maxValue.toInt then some (Int64.ofInt n) else none

/-- The digits of an integer after its sign. -/
def intDigits (n : Int) : List Char :=
  if n < 0 then '-' :: digits n.natAbs else digits n.natAbs

/-- The exponent at the end of a numeral: none, or `e` or `E`, a sign and digits. -/
def readExponent? : List Char → Option Int
  | [] => some 0
  | c :: s => if c == 'e' || c == 'E' then readInt? s else none

namespace Decimal

/-- Reads digits with at most one point, at least one digit, and an optional exponent. -/
def read? (negative : Bool) (s : List Char) : Option Decimal :=
  let whole := s.takeWhile isDigit
  let (fraction, rest) : List Char × List Char := match s.dropWhile isDigit with
    | '.' :: t => (t.takeWhile isDigit, t.dropWhile isDigit)
    | t => ([], t)
  if whole.isEmpty && fraction.isEmpty then none
  else (readExponent? rest).map fun exponent =>
    ⟨negative, ofDigits (whole ++ fraction), exponent - fraction.length⟩

/-- Digits with a point where one is needed and never an exponent. -/
def plain (d : Decimal) : List Char :=
  let (kept, exponent) := d.significant
  let magnitude :=
    if d.coefficient = 0 then ['0']
    else if 0 ≤ exponent then kept ++ List.replicate exponent.toNat '0'
    else
      let places := (-exponent).toNat
      if places < kept.length then
        kept.take (kept.length - places) ++ '.' :: kept.drop (kept.length - places)
      else
        '0' :: '.' :: List.replicate (places - kept.length) '0' ++ kept
  if d.negative then '-' :: magnitude else magnitude

end Decimal

namespace Floating

variable {F : FloatFormat}

/-- Reads a decimal numeral with an optional sign, or a name of infinity or of no number in letters
of either case. -/
def read? (F : FloatFormat) (s : List Char) : Option (Floating F) :=
  let (negative, s) := splitSign s
  let name := String.ofList (s.map Char.toLower)
  if name = "inf" ∨ name = "infinity" then some (.infinite negative)
  else if name = "nan" then some .nan
  else (Decimal.read? negative s).map (Decimal.toFloating F)

/-- The shortest digits that read back, without an exponent; of two equally near decimals the
greater one. -/
def plain : Floating F → List Char
  | .nan => "NaN".toList
  | .infinite negative => if negative then "-inf".toList else "inf".toList
  | .finite x => (x.shortest .up).plain

end Floating

end RobotScript
