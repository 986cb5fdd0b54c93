import RobotScript.Dictionary
import RobotScript.Number.Numeral
import RobotScript.Text.Blank

namespace RobotScript

/-- Held by 64 bits, with a sign or without one. -/
def InWord (n : Int) : Prop := -9223372036854775808 ≤ n ∧ n ≤ 18446744073709551615

instance (n : Int) : Decidable (InWord n) := inferInstanceAs (Decidable (_ ∧ _))

/-- A JSON value. A number that is no integer of 64 bits is a double. The fields of an object stand in the order in
which they are written. -/
inductive Json
  | null
  | bool (b : Bool)
  | integer (n : Int) (word : InWord n)
  | float (x : FiniteFloat .binary64)
  | string (s : String)
  | array (items : List Json)
  | object (fields : List (String × Json))

/-- The fields of an object. -/
abbrev JsonFields := List (String × Json)

namespace Json

def isNull : Json → Bool
  | .null => true
  | _ => false

def fields? : Json → Option JsonFields
  | .object fields => some fields
  | _ => none

def text? : Json → Option String
  | .string s => some s
  | _ => none

def items? : Json → Option (List Json)
  | .array items => some items
  | _ => none

mutual

/-- The same value with the fields of every object in the order of their keys. -/
def sortKeys : Json → Json
  | .array items => .array (sortAll items)
  | .object fields => .object (Dictionary.ofList (sortFields fields)).toList
  | value => value

def sortAll : List Json → List Json
  | [] => []
  | item :: items => sortKeys item :: sortAll items

def sortFields : List (String × Json) → List (String × Json)
  | [] => []
  | (key, value) :: fields => (key, sortKeys value) :: sortFields fields

end

/-- A double as a value; what is not finite has no other form than null. -/
def ofDouble : Double → Json
  | .finite x => .float x
  | _ => .null

/-- An integer as a value; one that 64 bits do not hold is a double. -/
def ofInt (n : Int) : Json := if word : InWord n then .integer n word else ofDouble (Floating.ofInt .binary64 n)

def ofChars (s : List Char) : Json := .string (String.ofList s)

def ofText? (s : Option String) : Json := (s.map .string).getD .null

/-- The number that a value stands for: a number, a numeral in a string, or a truth value. -/
def number? : Json → Option (FiniteFloat .binary64)
  | .integer n _ => (Floating.ofInt .binary64 n).finite?
  | .float x => some x
  | .string s => (Floating.read? .binary64 (Text.trim s.toList)).bind Floating.finite?
  | .bool b => (Floating.ofInt .binary64 (if b then 1 else 0)).finite?
  | _ => none

end Json

namespace JsonFields

def get? (fields : JsonFields) (key : String) : Option Json := fields.lookup key

/-- The value under a key, where null counts as absent. -/
def field? (fields : JsonFields) (key : String) : Option Json := (fields.get? key).filter (!·.isNull)

def text? (fields : JsonFields) (key : String) : Option String := (fields.field? key).bind Json.text?

def number? (fields : JsonFields) (key : String) : Option (FiniteFloat .binary64) :=
  (fields.field? key).bind Json.number?

end JsonFields

end RobotScript
