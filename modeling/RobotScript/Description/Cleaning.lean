import RobotScript.Description.Warning
import RobotScript.Program.Flags

namespace RobotScript.Description

/-- A value together with the warnings that its cleaning gave, in order. -/
structure Cleaned (α : Type) where
  value : α
  warnings : List Warning

namespace Cleaned

variable {α β : Type}

instance : Monad Cleaned where
  pure a := ⟨a, []⟩
  bind x f := ⟨(f x.value).value, x.warnings ++ (f x.value).warnings⟩

end Cleaned

def warn (path : Path) (repair : Repair) : Cleaned Unit := ⟨(), [.repaired path repair]⟩

/-- Uses a value in place of one that cannot be used. -/
def replace {α : Type} (path : Path) (repair : Repair) (value : α) : Cleaned α :=
  ⟨value, [.repaired path repair]⟩

/-- Controls and all that delimits a script. -/
def isReserved (c : Char) : Bool := Text.isControl c || c ∈ ['|', '{', '}', '(', ')', ',']

/-- A text without blanks around it and without reserved characters. -/
def removeReserved (path : Path) (s : List Char) : Cleaned (List Char) :=
  let trimmed := Text.trim s
  let kept := trimmed.filter (!isReserved ·)
  if kept.length = trimmed.length then pure trimmed
  else replace path .reservedRemoved (Text.trim kept)

def truncate (path : Path) (s : List Char) : Cleaned (List Char) :=
  if s.length ≤ maxTextLength then pure s
  else replace path .textTruncated (Text.trimEnd (s.take maxTextLength))

/-- A text without reserved characters and not too long, or the symbol that it then is. -/
def cleanText (path : Path) (s : List Char) : Cleaned Value := do
  let text ← removeReserved path s
  let text ← truncate path text
  match Symbol.ofChars? text with
  | some name => pure (.symbol name)
  | none => pure (.text (String.ofList text))

/-- An integer beyond 64 bits with sign is a float. -/
def cleanInteger (path : Path) (n : Int) : Cleaned Value :=
  if Int64.minValue.toInt ≤ n ∧ n ≤ Int64.maxValue.toInt then pure (.integer (Int64.ofInt n))
  else match (Floating.ofInt .binary64 n).finite? with
    | some x => pure (.float (.finite x))
    | none => replace path .numberNotFinite .zero

def cleanValue (path : Path) (raw : Option Json) : Cleaned Value :=
  match raw with
  | some (.integer n _) => cleanInteger path n
  | some (.float x) => pure (.float (.finite x))
  | some (.bool b) => pure (.bool b)
  | some (.string s) => cleanText path s.toList
  | _ => replace path .valueUnsupported .zero

/-- The text of a field without the blanks around it; empty where there is none. -/
def trimmedField (fields : JsonFields) (key : String) : List Char :=
  Text.trim ((fields.text? key).getD "").toList

def cleanComparison (path : Path) (fields : JsonFields) : Cleaned Comparison :=
  let symbol := String.ofList (trimmedField fields "op")
  match Comparison.ofSymbol? symbol with
  | some op => pure op
  | none => replace path (.comparisonUnknown symbol) .eq

def cleanCondition (path : Path) (raw : Option Json) : Cleaned Condition :=
  match raw.bind Json.fields? with
  | none => replace path .conditionInvalid .never
  | some fields => do
    let op ← cleanComparison path fields
    let left ← cleanValue (path.field "left") (fields.field? "left")
    let right ← cleanValue (path.field "right") (fields.field? "right")
    return ⟨op, left, right⟩

/-- A command in upper case, or nothing. -/
def cleanCommand (path : Path) (fields : JsonFields) : Cleaned (Option Node) :=
  let token := Text.upper (trimmedField fields "cmd")
  if token.isEmpty then replace path .commandMissing none
  else if isCommandToken token then pure (some (.command (String.ofList token)))
  else replace path (.commandInvalid (String.ofList token)) none

/-- A delay is rounded to milliseconds and kept within 32 bits. -/
def cleanDelay (path : Path) (fields : JsonFields) : Cleaned UInt32 :=
  match (fields.number? "ms").map FiniteFloat.round with
  | none => replace path .delayMissing 0
  | some ms =>
    if ms < 0 then replace path .delayNegative 0
    else if UInt32.size ≤ ms then replace path .delayTooLong (UInt32.ofNat (UInt32.size - 1))
    else pure (UInt32.ofNat ms.toNat)

def cleanSlotType (path : Path) (fields : JsonFields) : Cleaned SlotType :=
  match fields.text? "varType" with
  | none => replace path .slotTypeMissing .int
  | some code =>
    match Text.upper (Text.trim code.toList) with
    | [letter] => match SlotType.ofCode? letter with
      | some type => pure type
      | none => replace path (.slotTypeUnknown code) .int
    | _ => replace path (.slotTypeUnknown code) .int

def cleanSlotIndex (path : Path) (fields : JsonFields) : Cleaned Int :=
  match (fields.number? "index").map FiniteFloat.round with
  | none => replace path .slotIndexMissing 1
  | some (index : Int) =>
    if 1 ≤ index ∧ index ≤ maxSlot then pure index
    else replace path .slotIndexClamped (if index < 1 then 1 else maxSlot)

def cleanAssignOp (path : Path) (fields : JsonFields) : Cleaned AssignOp :=
  match trimmedField fields "op" with
  | ['='] => pure .set
  | ['+'] => pure .add
  | op => replace path (.assignOpUnknown (String.ofList op)) .set

def cleanAssign (path : Path) (fields : JsonFields) : Cleaned Node := do
  let type ← cleanSlotType (path.field "varType") fields
  let index ← cleanSlotIndex (path.field "index") fields
  let op ← cleanAssignOp (path.field "op") fields
  let value ← cleanValue (path.field "value") (fields.field? "value")
  return .assign (.clamped type index) op value

/-- A number is rounded and kept within 32 bits. -/
def cleanInt32 (path : Path) (fields : JsonFields) (key : String) (default : Int) :
    Cleaned Int32 :=
  let path := path.field key
  match (fields.number? key).map FiniteFloat.round with
  | none => replace path (.numberMissing default) (Int32.ofInt default)
  | some n =>
    if n < Int32.minValue.toInt then replace path .numberClamped Int32.minValue
    else if Int32.maxValue.toInt < n then replace path .numberClamped Int32.maxValue
    else pure (Int32.ofInt n)

def cleanStep (path : Path) (fields : JsonFields) : Cleaned Int32 := do
  let step ← cleanInt32 path fields "step" 1
  if step = 0 then replace (path.field "step") .stepZero 1 else pure step

/-- The items of a list with their places. -/
def located (path : Path) (items : List Json) : List (Path × Json) :=
  items.mapIdx fun index item => (path.item index, item)

/-- The raw cases of a `select`, cut to the number that is kept. -/
def cleanCaseList (path : Path) (raw : Option Json) : Cleaned (List Json) :=
  match raw with
  | none => pure []
  | some (.array items) =>
    if items.length ≤ maxCases then pure items
    else replace path .casesTrimmed (items.take maxCases)
  | some _ => replace path .casesNotList []

/-- Cleans items one by one until `room` of them are kept. -/
def keepUpTo (clean : Path × Json → Cleaned (Option Node)) :
    Nat → List (Path × Json) → Cleaned (List Node)
  | _, [] => pure []
  | 0, _ => pure []
  | room + 1, item :: items => do
    match ← clean item with
    | none => keepUpTo clean (room + 1) items
    | some node =>
      let nodes ← keepUpTo clean room items
      return node :: nodes

/-- An instruction, given how the lists inside it are cleaned. -/
def cleanNodeWith (nodes : Path → Option Json → Cleaned (List Node)) (item : Path × Json) :
    Cleaned (Option Node) :=
  let (path, raw) := item
  match raw.fields? with
  | none => replace path .nodeNotObject none
  | some fields =>
    let nodesAt (key : String) := nodes (path.field key) (fields.field? key)
    match String.ofList (trimmedField fields "type") with
    | "cmd" => cleanCommand path fields
    | "delay" => do
      let ms ← cleanDelay (path.field "ms") fields
      return some (.delay ms)
    | "set_var" => do
      let node ← cleanAssign path fields
      return some node
    | "if" => do
      let condition ← cleanCondition (path.field "expr") (fields.field? "expr")
      let yes ← nodesAt "then"
      let no ← nodesAt "else"
      return some (.branch condition yes no)
    | "while" => do
      let condition ← cleanCondition (path.field "expr") (fields.field? "expr")
      let body ← nodesAt "body"
      return some (.repeatWhile condition body)
    | "for" => do
      let start ← cleanInt32 path fields "start" 0
      let stop ← cleanInt32 path fields "end" 0
      let step ← cleanStep path fields
      let body ← nodesAt "body"
      return some (.count start stop step body)
    | "switch" => do
      let value ← cleanValue (path.field "value") (fields.field? "value")
      let items ← cleanCaseList (path.field "cases") (fields.field? "cases")
      let cases ← (located (path.field "cases") items).mapM fun (path, raw) => do
        let fields := raw.fields?.getD []
        let value ← cleanValue (path.field "match") (fields.field? "match")
        let body ← nodes (path.field "body") (fields.field? "body")
        return (value, body)
      let default ← nodesAt "default"
      return some (.select value cases default)
    | "break" => pure (some .leave)
    | "" => replace path .nodeWithoutType none
    | kind => replace path (.nodeUnknown kind) none

/-- A list of instructions in which lists nest `levels` deep at most, itself included. -/
def cleanNodes : Nat → Path → Option Json → Cleaned (List Node)
  | _, _, none => pure []
  | 0, path, some (.array items) =>
    if items.isEmpty then pure [] else replace path .nodesTooDeep []
  | levels + 1, path, some (.array items) => do
    let nodes ← keepUpTo (cleanNodeWith (cleanNodes levels)) maxNodes (located path items)
    if maxNodes < items.length then warn path .nodesTrimmed
    return nodes
  | _, path, some _ => replace path .nodesNotList []

/-- The flag of one item: pairing names are kept, the other flags follow from the program. -/
def cleanFlag (item : Path × Json) : Cleaned (Option InitFlag) :=
  match item.2 with
  | .string s =>
    let token := Text.trim s.toList
    if token.isEmpty then pure none
    else match InitFlag.ofChars? token with
      | some (.pairing name) => pure (some (.pairing name))
      | some _ => pure none
      | none => ⟨none, [.flagDropped (String.ofList token)]⟩
  | _ => replace item.1 .flagNotText none

/-- The pairing names of a description, each once. -/
def cleanFlags (raw : Option Json) : Cleaned (List InitFlag) :=
  let path := Path.root "initFlags"
  match raw with
  | none => pure []
  | some (.array items) => do
    let flags ← (located path items).mapM cleanFlag
    let keep (kept : List InitFlag) (flag : InitFlag) := if flag ∈ kept then kept else kept ++ [flag]
    return (flags.filterMap id).foldl keep []
  | some _ => replace path .flagsNotList []

/-- A description may stand alone or in the field `program` of an object. -/
def programOf (raw : Json) : Json :=
  match raw.fields?.bind (·.get? "program") with
  | some (.object fields) => .object fields
  | _ => raw

/-- Turns any JSON value into a program. Nothing fails: what cannot be used is dropped or replaced,
with a warning that says where. -/
def clean (raw : Json) : Cleaned Program :=
  match (programOf raw).fields? with
  | none => replace (.root "program") .programNotObject .empty
  | some fields => do
    let pairing ← cleanFlags (fields.field? "initFlags")
    let setup ← cleanNodes (maxDepth + 1) (.root "setup") (fields.field? "setup")
    let loop ← cleanNodes (maxDepth + 1) (.root "loop") (fields.field? "loop")
    return ⟨inferFlags setup loop ++ pairing, setup, loop⟩

end RobotScript.Description
