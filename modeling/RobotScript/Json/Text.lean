import RobotScript.Json.Basic

namespace RobotScript

/-- A numeral as it is written. The digits after the point are none where there is no point. -/
structure JsonNumeral where
  negative : Bool
  whole : List Char
  fraction : List Char
  exponent : Option (Option Char × List Char)

/-- One character of a string as it is written: itself, or the code unit of a `\u` escape. -/
inductive JsonPiece
  | char (c : Char)
  | unit (n : Nat)

/-- JSON as it is written, blanks apart: numerals and escapes are not evaluated, nothing bounds the
nesting, and an object keeps its fields in order, repeated keys included. -/
inductive JsonText
  | null
  | bool (b : Bool)
  | number (n : JsonNumeral)
  | string (pieces : List JsonPiece)
  | array (items : List JsonText)
  | object (fields : List (List JsonPiece × JsonText))

namespace JsonText

def isSpace (c : Char) : Bool := c == ' ' || c == '\t' || c == '\n' || c == '\r'

def skip (s : List Char) : List Char := s.dropWhile isSpace

def hexDigit? (c : Char) : Option Nat :=
  if isDigit c then some (c.toNat - '0'.toNat)
  else if 'a' ≤ c ∧ c ≤ 'f' then some (c.toNat - 'a'.toNat + 10)
  else if 'A' ≤ c ∧ c ≤ 'F' then some (c.toNat - 'A'.toNat + 10)
  else none

def escape? : Char → Option Char
  | '"' => some '"'
  | '\\' => some '\\'
  | '/' => some '/'
  | 'b' => some '\x08'
  | 'f' => some '\x0c'
  | 'n' => some '\n'
  | 'r' => some '\r'
  | 't' => some '\t'
  | _ => none

/-- Reads a string from behind its opening quote. -/
def readPieces : List Char → Option (List JsonPiece × List Char)
  | [] => none
  | '"' :: s => some ([], s)
  | '\\' :: 'u' :: a :: b :: c :: d :: s => do
    let n := (← hexDigit? a) * 4096 + (← hexDigit? b) * 256 + (← hexDigit? c) * 16 + (← hexDigit? d)
    let (pieces, s) ← readPieces s
    return (.unit n :: pieces, s)
  | '\\' :: e :: s => do
    let c ← escape? e
    let (pieces, s) ← readPieces s
    return (.char c :: pieces, s)
  | c :: s => do
    if c == '\\' || c.toNat < 0x20 then none
    else
      let (pieces, s) ← readPieces s
      return (.char c :: pieces, s)

/-- One digit or more. -/
def readRun (s : List Char) : Option (List Char × List Char) :=
  if (s.takeWhile isDigit).isEmpty then none else some (s.takeWhile isDigit, s.dropWhile isDigit)

def readFraction : List Char → Option (List Char × List Char)
  | '.' :: s => readRun s
  | s => some ([], s)

def readExponent : List Char → Option (Option (Option Char × List Char) × List Char)
  | c :: s =>
    if c == 'e' || c == 'E' then do
      let (sign, s) : Option Char × List Char := match s with
        | '+' :: t => (some '+', t)
        | '-' :: t => (some '-', t)
        | t => (none, t)
      let (run, s) ← readRun s
      return (some (sign, run), s)
    else some (none, c :: s)
  | [] => some (none, [])

/-- No digit may follow a zero at the front. -/
def readNumeral (s : List Char) : Option (JsonNumeral × List Char) := do
  let (negative, s) : Bool × List Char := match s with
    | '-' :: t => (true, t)
    | t => (false, t)
  let (whole, s) ← readRun s
  if whole.head? == some '0' && whole.length ≠ 1 then none
  else
    let (fraction, s) ← readFraction s
    let (exponent, s) ← readExponent s
    return (⟨negative, whole, fraction, exponent⟩, s)

mutual

/-- Reads a value with no blank before it. The count bounds the steps; each two of them read a
character. -/
def readValue : Nat → List Char → Option (JsonText × List Char)
  | 0, _ => none
  | steps + 1, s => match s with
    | 'n' :: 'u' :: 'l' :: 'l' :: s => some (.null, s)
    | 't' :: 'r' :: 'u' :: 'e' :: s => some (.bool true, s)
    | 'f' :: 'a' :: 'l' :: 's' :: 'e' :: s => some (.bool false, s)
    | '"' :: s => (readPieces s).map fun (pieces, s) => (.string pieces, s)
    | '[' :: s => match skip s with
      | ']' :: s => some (.array [], s)
      | s => (readItems steps s).map fun (items, s) => (.array items, s)
    | '{' :: s => match skip s with
      | '}' :: s => some (.object [], s)
      | s => (readFields steps s).map fun (fields, s) => (.object fields, s)
    | s => (readNumeral s).map fun (n, s) => (.number n, s)

/-- Reads the items of an array up to its end. -/
def readItems : Nat → List Char → Option (List JsonText × List Char)
  | 0, _ => none
  | steps + 1, s => do
    let (item, s) ← readValue steps s
    match skip s with
    | ']' :: s => return ([item], s)
    | ',' :: s =>
      let (items, s) ← readItems steps (skip s)
      return (item :: items, s)
    | _ => none

/-- Reads the fields of an object up to its end. -/
def readFields : Nat → List Char → Option (List (List JsonPiece × JsonText) × List Char)
  | 0, _ => none
  | steps + 1, s => match s with
    | '"' :: s => do
      let (key, s) ← readPieces s
      match skip s with
      | ':' :: s =>
        let (value, s) ← readValue steps (skip s)
        match skip s with
        | '}' :: s => return ([(key, value)], s)
        | ',' :: s =>
          let (fields, s) ← readFields steps (skip s)
          return ((key, value) :: fields, s)
        | _ => none
      | _ => none
    | _ => none

end

/-- Reads a text that holds one value and blanks. -/
def read? (s : List Char) : Option JsonText := do
  let (value, rest) ← readValue (2 * s.length + 2) (skip s)
  if (skip rest).isEmpty then some value else none

end JsonText

namespace JsonPiece

def isHigh (n : Nat) : Bool := 0xD800 ≤ n && n < 0xDC00

def isLow (n : Nat) : Bool := 0xDC00 ≤ n && n < 0xE000

/-- The text that pieces stand for. Two units of a surrogate pair make one character, and a unit that
is half a pair makes none. -/
def decode? : List JsonPiece → Option (List Char)
  | [] => some []
  | .char c :: pieces => (decode? pieces).map (c :: ·)
  | .unit n :: .unit m :: pieces =>
    if isHigh n then
      if isLow m then
        (decode? pieces).map (Char.ofNat (0x10000 + (n - 0xD800) * 0x400 + (m - 0xDC00)) :: ·)
      else none
    else if isLow n then none
    else (decode? (.unit m :: pieces)).map (Char.ofNat n :: ·)
  | .unit n :: pieces =>
    if isHigh n || isLow n then none else (decode? pieces).map (Char.ofNat n :: ·)

def text? (pieces : List JsonPiece) : Option String := (decode? pieces).map String.ofList

end JsonPiece

namespace JsonNumeral

/-- The leading digits of a numeral that 64 bits hold, and the power of ten that goes with them. -/
structure Scaled where
  significand : Nat
  exponent : Int
  full : Bool

/-- A digit before the point that no longer fits counts as a zero. -/
def Scaled.whole (x : Scaled) (c : Char) : Scaled :=
  let next := 10 * x.significand + (c.toNat - '0'.toNat)
  if x.full || UInt64.size ≤ next then { x with exponent := x.exponent + 1, full := true }
  else { x with significand := next }

/-- A digit after the point that no longer fits is dropped. -/
def Scaled.fraction (x : Scaled) (c : Char) : Scaled :=
  let next := 10 * x.significand + (c.toNat - '0'.toNat)
  if x.full || UInt64.size ≤ next then { x with full := true }
  else { x with significand := next, exponent := x.exponent - 1 }

/-- The double nearest to a power of ten up to `10 ^ 308`. -/
def power? (k : Nat) : Option (FiniteFloat .binary64) :=
  (Decimal.toFloating .binary64 ⟨false, 1, k⟩).finite?

/-- The significand times a power of ten, by one rounded product or at most two rounded quotients of
doubles. There is none beyond the range; below it the result is zero. -/
def Scaled.magnitude? (x : Scaled) : Option (FiniteFloat .binary64) := do
  let significand ← (Floating.ofInt .binary64 x.significand).finite?
  let k := x.exponent.natAbs
  if x.significand = 0 then some significand
  else if 0 ≤ x.exponent then
    if k ≤ 308 then (significand.mul (← power? k)).finite? else none
  else if k ≤ 308 then (significand.div (← power? k)).finite?
  else if k ≤ 616 then
    let part ← (significand.div (← power? 308)).finite?
    (part.div (← power? (k - 308))).finite?
  else (Floating.zero .binary64 false).finite?

/-- An exponent of 32 bits or more is out of reach of every significand. -/
def exponentLimit : Nat := Nat.pow 2 31

/-- The value of a numeral with a point, an exponent or too many digits. -/
def magnitude? (n : JsonNumeral) : Option (FiniteFloat .binary64) :=
  let whole := n.whole.foldl Scaled.whole ⟨0, 0, false⟩
  let scaled := n.fraction.foldl Scaled.fraction { whole with full := false }
  match n.exponent with
  | none => scaled.magnitude?
  | some (sign, run) =>
    let e := ofDigits run
    if sign = some '-' then
      if exponentLimit ≤ e then (Floating.zero .binary64 false).finite?
      else Scaled.magnitude? { scaled with exponent := scaled.exponent - e }
    else if exponentLimit ≤ e then
      if scaled.significand = 0 then (Floating.zero .binary64 false).finite? else none
    else Scaled.magnitude? { scaled with exponent := scaled.exponent + e }

/-- The value of a numeral: an integer where it is written as one and 64 bits hold it, else a double.
The integer zero has no sign, so `-0` is a double. -/
def value? (n : JsonNumeral) : Option Json :=
  let integer : Int := if n.negative then -ofDigits n.whole else ofDigits n.whole
  let double := n.magnitude?.map fun x => Json.float (if n.negative then x.neg else x)
  if n.fraction.isEmpty && n.exponent.isNone && !(n.negative && integer = 0) then
    if word : InWord integer then some (.integer integer word) else double
  else double

end JsonNumeral

namespace JsonText

mutual

/-- The value of a text that nests at most `depth` arrays and objects. Of the fields under one key
the last counts. -/
def value? : JsonText → Nat → Option Json
  | .null, _ => some .null
  | .bool b, _ => some (.bool b)
  | .number n, _ => n.value?
  | .string pieces, _ => (JsonPiece.text? pieces).map .string
  | .array items, depth =>
    if depth = 0 then none else (values? items (depth - 1)).map .array
  | .object fields, depth =>
    if depth = 0 then none
    else (fieldValues? fields (depth - 1)).map fun fields => .object (Dictionary.ofList fields).toList

def values? : List JsonText → Nat → Option (List Json)
  | [], _ => some []
  | item :: items, depth => do return (← value? item depth) :: (← values? items depth)

def fieldValues? : List (List JsonPiece × JsonText) → Nat → Option (List (String × Json))
  | [], _ => some []
  | (key, value) :: fields, depth => do
    return (← JsonPiece.text? key, ← value? value depth) :: (← fieldValues? fields depth)

end

/-- The deepest nesting of arrays and objects that is read. -/
def maxDepth : Nat := 127

end JsonText

/-- Reads a JSON text. -/
def Json.read? (s : List Char) : Option Json :=
  (JsonText.read? s).bind (·.value? JsonText.maxDepth)

/-- Reads the JSON text that a message holds: the whole message, or else all from its first opening
brace to its last closing one. -/
def Json.extract? (message : List Char) : Option Json :=
  let s := Text.trim message
  match Json.read? s with
  | some value => some value
  | none =>
    let braced := Text.dropEndWhile (· != '}') (s.dropWhile (· != '{'))
    if braced.isEmpty then none else Json.read? braced

end RobotScript
