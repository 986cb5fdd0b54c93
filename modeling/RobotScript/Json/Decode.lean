import RobotScript.Json.Text

namespace RobotScript

/-- Reads a value of a type from JSON text that may nest as many arrays and objects as the number
says. -/
def JsonDecoder (α : Type) : Type := JsonText → Nat → Option α

/-- One field of a record. A field may be missing from an object; an array gives the first fields and
cuts the others off. -/
inductive JsonEntry
  | given (value : JsonText)
  | missing
  | cutOff

namespace JsonDecoder

variable {α : Type}

def text : JsonDecoder String
  | .string pieces, _ => JsonPiece.text? pieces
  | _, _ => none

def bool : JsonDecoder Bool
  | .bool b, _ => some b
  | _, _ => none

/-- An integer from zero up to and without the bound. -/
def natBelow (bound : Nat) : JsonDecoder Nat
  | .number n, _ => match n.value? with
    | some (.integer i _) => if 0 ≤ i ∧ i < bound then some i.toNat else none
    | _ => none
  | _, _ => none

/-- Any number, rounded to the nearest single. -/
def single : JsonDecoder Single
  | .number n, _ => match n.value? with
    | some (.integer i _) => some (.ofInt .binary32 i)
    | some (.float x) => some (Floating.convert .binary32 (.finite x))
    | _ => none
  | _, _ => none

/-- Null is no value. -/
def optional (decode : JsonDecoder α) : JsonDecoder (Option α)
  | .null, _ => some none
  | value, depth => (decode value depth).map some

def list (decode : JsonDecoder α) : JsonDecoder (List α)
  | .array items, depth + 1 => items.mapM (decode · depth)
  | _, _ => none

/-- An object with free keys; of the values under one key the last is kept. -/
def dictionary (decode : JsonDecoder α) : JsonDecoder (Dictionary α)
  | .object fields, depth + 1 => do
    let entries ← fields.mapM fun (key, value) => do
      return (← JsonPiece.text? key, ← decode value depth)
    return Dictionary.ofList entries
  | _, _ => none

/-- The fields of an object that are named `key`. -/
def named (key : String) (fields : List (String × JsonText)) : Option JsonEntry :=
  match fields.filter (·.1 == key) with
  | [] => some .missing
  | [(_, value)] => some (.given value)
  | _ => none

/-- The fields of a record with fixed keys, and the nesting left for them. It is an object in which no
key of the record is repeated and unknown keys are passed over, or an array of the fields in order. -/
def record (keys : List String) : JsonDecoder (List JsonEntry × Nat)
  | .object fields, depth + 1 => do
    let fields ← fields.mapM fun (key, value) => do return (← JsonPiece.text? key, value)
    let entries ← keys.mapM (named · fields)
    return (entries, depth)
  | .array items, depth + 1 =>
    if items.length ≤ keys.length then
      some (items.map .given ++ List.replicate (keys.length - items.length) .cutOff, depth)
    else none
  | _, _ => none

end JsonDecoder

namespace JsonEntry

variable {α : Type}

/-- A field that has to be there. -/
def required (entry : JsonEntry) (decode : JsonDecoder α) (depth : Nat) : Option α :=
  match entry with
  | .given value => decode value depth
  | _ => none

/-- A field with a value of its own where it is absent. -/
def withDefault (entry : JsonEntry) (default : α) (decode : JsonDecoder α) (depth : Nat) : Option α :=
  match entry with
  | .given value => decode value depth
  | _ => some default

/-- A field that an object may leave out. -/
def optional (entry : JsonEntry) (decode : JsonDecoder α) (depth : Nat) : Option (Option α) :=
  match entry with
  | .given value => decode.optional value depth
  | .missing => some none
  | .cutOff => none

end JsonEntry

/-- Reads a text into a type. -/
def JsonDecoder.read? {α : Type} (decode : JsonDecoder α) (s : String) : Option α :=
  (JsonText.read? s.toList).bind fun value => decode value JsonText.maxDepth

end RobotScript
