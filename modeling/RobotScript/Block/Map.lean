import RobotScript.Block.Descriptor

namespace RobotScript.Block

/-- What a command turns into. A single block and a chain of one are written differently. -/
inductive Expansion
  | single (block : Descriptor)
  | chain (blocks : List Descriptor)
  deriving BEq

namespace Expansion

def blocks : Expansion → List Descriptor
  | .single block => [block]
  | .chain blocks => blocks

def toJson : Expansion → Json
  | .single block => block.toJson
  | .chain blocks => .array (Descriptor.chainToJson blocks)

/-- A descriptor is tried before a list of them, and the text has to be sound in all its parts. -/
def decode : JsonDecoder Expansion := fun text depth => do
  let _ ← text.value? depth
  match Descriptor.decode text depth with
  | some block => return .single block
  | none => (JsonDecoder.list Descriptor.decode text depth).map .chain

end Expansion

/-- The root block, whose two statement inputs hold the phases. -/
structure BaseBlock where
  kind : String
  setupInput : String
  loopInput : String
  deriving BEq

/-- The kinds of the blocks for control flow, and the name of the counter of counted loops. -/
structure StructuralKinds where
  delay : String
  setVar : String
  changeVar : String
  branch : String
  repeatWhile : String
  count : String
  leave : String
  compare : String
  and : String
  counter : String
  deriving BEq

/-- The kinds of the blocks for operands. -/
structure ValueKinds where
  number : String
  text : String
  slot : String
  touch : String
  audio : String
  light : String
  deriving BEq

/-- Which blocks there are, and what each command turns into. -/
structure BlockMap where
  base : BaseBlock
  structural : StructuralKinds
  value : ValueKinds
  commands : Dictionary Expansion
  deriving BEq

namespace BlockMap

def command? (map : BlockMap) (token : String) : Option (List Descriptor) :=
  (map.commands.get? token).map Expansion.blocks

def eye (pin state : String) : Descriptor :=
  (Descriptor.new "emmi_eyes_digital").withField "PIN" pin |>.withField "STATE" state

def allEyes (state : String) : Expansion :=
  .chain (["PIN_EYE_RED", "PIN_EYE_GREEN", "PIN_EYE_BLUE"].map (eye · state))

def wheels (direction : String) : Expansion :=
  .single ((Descriptor.new "emmi_wheels_simple").withField "DIRECTION" direction
    |>.withField "SPEED" "180" |>.withField "STEP" "1")

/-- The map of the robot as it is delivered. -/
def builtin : BlockMap where
  base := { kind := "base_setup_loop", setupInput := "SETUP", loopInput := "LOOP" }
  structural := {
    delay := "custom_wait"
    setVar := "custom_variable_set"
    changeVar := "custom_variable_change"
    branch := "custom_controls_if"
    repeatWhile := "custom_controls_whileUntil"
    count := "custom_controls_for"
    leave := "custom_flow_statements"
    compare := "logic_compare"
    and := "custom_logic_and"
    counter := "i" }
  value := {
    number := "math_number"
    text := "custom_text_value"
    slot := "custom_variable_get"
    touch := "emmi_touch_read"
    audio := "emmi_mic_read"
    light := "emmi_light_read" }
  commands := Dictionary.ofList [
    ("ERN", .single (eye "PIN_EYE_RED" "HIGH")),
    ("ERF", .single (eye "PIN_EYE_RED" "LOW")),
    ("EGN", .single (eye "PIN_EYE_GREEN" "HIGH")),
    ("EGF", .single (eye "PIN_EYE_GREEN" "LOW")),
    ("EBN", .single (eye "PIN_EYE_BLUE" "HIGH")),
    ("EBF", .single (eye "PIN_EYE_BLUE" "LOW")),
    ("EAN", allEyes "HIGH"),
    ("EAF", allEyes "LOW"),
    ("MF", wheels "FORWARD"),
    ("MB", wheels "BACKWARD"),
    ("ML", wheels "LEFT"),
    ("MR", wheels "RIGHT"),
    ("BS", .single ((Descriptor.new "emmi_buzzer_stop").withField "PIN" "PIN_BUZZER")),
    ("X", .single ((Descriptor.new "custom_flow_statements").withField "FLOW" "BREAK"))]

def baseKeys : List String := ["type", "setupInput", "loopInput"]

def structuralKeys : List String :=
  ["delay", "setVar", "changeVar", "if", "while", "for", "break", "logicCompare", "logicAnd", "forVarName"]

def valueKeys : List String := ["number", "text", "variable", "touch", "mic", "light"]

/-- A record of texts, all of which have to be there. -/
def decodeTexts (keys : List String) : JsonDecoder (List String) := fun text depth => do
  let (entries, depth) ← JsonDecoder.record keys text depth
  entries.mapM (·.required JsonDecoder.text depth)

def decodeBase : JsonDecoder BaseBlock := fun text depth => do
  match ← decodeTexts baseKeys text depth with
  | [kind, setupInput, loopInput] => return { kind, setupInput, loopInput }
  | _ => none

def decodeStructural : JsonDecoder StructuralKinds := fun text depth => do
  match ← decodeTexts structuralKeys text depth with
  | [delay, setVar, changeVar, branch, repeatWhile, count, leave, compare, and, counter] =>
    return { delay, setVar, changeVar, branch, repeatWhile, count, leave, compare, and, counter }
  | _ => none

def decodeValue : JsonDecoder ValueKinds := fun text depth => do
  match ← decodeTexts valueKeys text depth with
  | [number, text, slot, touch, audio, light] =>
    return { number, text, slot, touch, audio, light }
  | _ => none

/-- A section that is missing is the one of the built-in map. -/
def decode : JsonDecoder BlockMap := fun text depth => do
  match ← JsonDecoder.record ["base", "blocks", "value", "commandMap"] text depth with
  | ([base, structural, value, commands], depth) =>
    return {
      base := ← base.withDefault builtin.base decodeBase depth
      structural := ← structural.withDefault builtin.structural decodeStructural depth
      value := ← value.withDefault builtin.value decodeValue depth
      commands :=
        ← commands.withDefault builtin.commands (JsonDecoder.dictionary Expansion.decode) depth }
  | _ => none

def read? (s : String) : Option BlockMap := decode.read? s

def textsToJson (keys values : List String) : Json :=
  .object (keys.zip (values.map .string))

def toJson (map : BlockMap) : Json :=
  let { base, structural := s, value := v, commands } := map
  .object [
    ("base", textsToJson baseKeys [base.kind, base.setupInput, base.loopInput]),
    ("blocks", textsToJson structuralKeys [s.delay, s.setVar, s.changeVar, s.branch, s.repeatWhile,
      s.count, s.leave, s.compare, s.and, s.counter]),
    ("value", textsToJson valueKeys [v.number, v.text, v.slot, v.touch, v.audio, v.light]),
    ("commandMap", .object (commands.map Expansion.toJson).toList)]

end BlockMap

end RobotScript.Block
