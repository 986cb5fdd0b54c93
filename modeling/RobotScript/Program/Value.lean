import RobotScript.Json.Basic

namespace RobotScript

/-- The classes of variable slots, in wire order. -/
inductive SlotType
  | int
  | float
  | char
  | string
  | bool
  deriving DecidableEq

namespace SlotType

def all : List SlotType := [.int, .float, .char, .string, .bool]

/-- The letter of the class on the wire. -/
def code : SlotType → Char
  | .int => 'I'
  | .float => 'F'
  | .char => 'C'
  | .string => 'S'
  | .bool => 'B'

def ofCode? (c : Char) : Option SlotType := all.find? (·.code == c)

end SlotType

/-- The greatest index of a slot in its class. -/
def maxSlot : Nat := 5

/-- One of the five slots of a class, `I1` to `B5`. -/
structure Slot where
  type : SlotType
  index : Nat
  one_le : 1 ≤ index
  le_max : index ≤ maxSlot
  deriving DecidableEq

namespace Slot

def ofIndex? (type : SlotType) (index : Int) : Option Slot :=
  if bounds : 1 ≤ index.toNat ∧ index.toNat ≤ maxSlot then
    some ⟨type, index.toNat, bounds.1, bounds.2⟩
  else none

/-- An index outside the slots goes to the nearer end. -/
def clamped (type : SlotType) (index : Int) : Slot where
  type := type
  index := max 1 (min maxSlot index.toNat)
  one_le := Nat.le_max_left ..
  le_max := Nat.max_le.2 ⟨by decide, Nat.min_le_left ..⟩

/-- The wire name, the letter of the class and the index. -/
def chars (slot : Slot) : List Char := slot.type.code :: digits slot.index

end Slot

/-- A reading that the robot takes while it runs. -/
inductive Sensor
  | touch
  | audio
  | light
  deriving DecidableEq

def Sensor.token : Sensor → String
  | .touch => "TR"
  | .audio => "AR"
  | .light => "VR"

/-- A name that the robot looks up while it runs. -/
inductive Symbol
  | slot (place : Slot)
  | sensor (source : Sensor)
  deriving DecidableEq

namespace Symbol

def chars : Symbol → List Char
  | .slot place => place.chars
  | .sensor source => source.token.toList

/-- Reads a name in the case in which it is written. -/
def ofChars? : List Char → Option Symbol
  | ['T', 'R'] => some (.sensor .touch)
  | ['A', 'R'] => some (.sensor .audio)
  | ['V', 'R'] => some (.sensor .light)
  | [code, digit] => do
    let type ← SlotType.ofCode? code
    if isDigit digit then (Slot.ofIndex? type (ofDigits [digit])).map .slot else none
  | _ => none

end Symbol

/-- An operand of assignments, comparisons and cases. -/
inductive Value
  | integer (n : Int64)
  | float (x : Double)
  | bool (b : Bool)
  | text (s : String)
  | symbol (name : Symbol)
  deriving DecidableEq

namespace Value

/-- What every unusable value becomes. -/
def zero : Value := .integer 0

def sensor? : Value → Option Sensor
  | .symbol (.sensor source) => some source
  | _ => none

/-- Equality of values of one kind, where floats are compared as numbers. -/
def agrees : Value → Value → Bool
  | .float x, .float y => x.agrees y
  | a, b => a == b

/-- The value in a description: a text and a symbol look alike there. -/
def toJson : Value → Json
  | .integer n => .ofInt n.toInt
  | .float x => Json.ofDouble x
  | .bool b => .bool b
  | .text s => .string s
  | .symbol name => .string (String.ofList name.chars)

end Value

end RobotScript
