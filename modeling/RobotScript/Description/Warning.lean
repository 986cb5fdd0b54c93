import RobotScript.Program.Basic

namespace RobotScript.Description

/-- A place in a description. -/
inductive Path
  | root (name : String)
  | field (parent : Path) (key : String)
  | item (parent : Path) (index : Nat)

def Path.render : Path → String
  | .root name => name
  | .field parent key => parent.render ++ "." ++ key
  | .item parent index => parent.render ++ "[" ++ toString index ++ "]"

/-- The greatest nesting of instruction lists that is kept; the two phases have depth 0. -/
def maxDepth : Nat := 6

def maxNodes : Nat := 200

def maxCases : Nat := 12

/-- The number of characters of the longest text that is kept. -/
def maxTextLength : Nat := 120

/-- What was dropped or replaced. -/
inductive Repair
  | programNotObject
  | flagsNotList
  | flagNotText
  | nodesNotList
  | nodesTooDeep
  | nodesTrimmed
  | nodeNotObject
  | nodeWithoutType
  | nodeUnknown (kind : String)
  | commandMissing
  | commandInvalid (token : String)
  | delayMissing
  | delayNegative
  | delayTooLong
  | slotTypeMissing
  | slotTypeUnknown (code : String)
  | slotIndexMissing
  | slotIndexClamped
  | assignOpUnknown (op : String)
  | numberMissing (used : Int)
  | numberClamped
  | stepZero
  | casesNotList
  | casesTrimmed
  | conditionInvalid
  | comparisonUnknown (op : String)
  | valueUnsupported
  | numberNotFinite
  | reservedRemoved
  | textTruncated

def quote (s : String) : String := "\"" ++ s ++ "\""

def Repair.message : Repair → String
  | .programNotObject => "expected an object, using an empty program."
  | .flagsNotList => "expected a list, ignored."
  | .flagNotText => "non-string flag dropped."
  | .nodesNotList => "expected a node list, ignored."
  | .nodesTooDeep => "maximum nesting depth exceeded, body truncated."
  | .nodesTrimmed => "node list trimmed to " ++ toString maxNodes ++ " entries."
  | .nodeNotObject => "skipped invalid node."
  | .nodeWithoutType => "node missing type, skipped."
  | .nodeUnknown kind => "unsupported node type " ++ quote kind ++ " skipped."
  | .commandMissing => "cmd missing token."
  | .commandInvalid token => "invalid cmd token " ++ quote token ++ " skipped."
  | .delayMissing => "missing or non-numeric delay, using 0."
  | .delayNegative => "negative delay clamped to 0."
  | .delayTooLong => "delay clamped to " ++ toString (UInt32.size - 1) ++ "."
  | .slotTypeMissing => "missing variable type, using I."
  | .slotTypeUnknown code => "unsupported variable type " ++ quote code ++ ", using I."
  | .slotIndexMissing => "missing slot index, using 1."
  | .slotIndexClamped => "slot index clamped to 1..5."
  | .assignOpUnknown op => "unsupported assignment op " ++ quote op ++ ", using =."
  | .numberMissing used => "missing or non-numeric value, using " ++ toString used ++ "."
  | .numberClamped => "value clamped to the 32-bit range."
  | .stepZero => "step 0 replaced with 1."
  | .casesNotList => "expected a case list, ignored."
  | .casesTrimmed => "case list trimmed to " ++ toString maxCases ++ " entries."
  | .conditionInvalid => "invalid expression, replaced with 1==0."
  | .comparisonUnknown op => "unsupported op " ++ quote op ++ ", replaced with =="
  | .valueUnsupported => "unsupported value type, replaced with 0."
  | .numberNotFinite => "non-finite number replaced with 0."
  | .reservedRemoved => "removed characters reserved by the wire protocol."
  | .textTruncated => "string truncated to " ++ toString maxTextLength ++ " chars."

/-- A note on one repair. A flag that no part of the robot answers to is named without its place. -/
inductive Warning
  | repaired (path : Path) (repair : Repair)
  | flagDropped (token : String)

def Warning.message : Warning → String
  | .repaired path repair => path.render ++ ": " ++ repair.message
  | .flagDropped token => "Dropped unsupported init flag: " ++ token

end RobotScript.Description
