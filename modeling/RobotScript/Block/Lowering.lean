import RobotScript.Block.Map
import RobotScript.Script.Printer

namespace RobotScript.Block

/-- Blocks in order, and the commands for which there is none. -/
structure Lowered where
  blocks : List Descriptor
  unmapped : List String

namespace Lowered

def append (a b : Lowered) : Lowered := ⟨a.blocks ++ b.blocks, a.unmapped ++ b.unmapped⟩

instance : Append Lowered := ⟨append⟩

def empty : Lowered := ⟨[], []⟩

end Lowered

namespace BlockMap

def number (map : BlockMap) (text : List Char) : Descriptor :=
  (Descriptor.new map.value.number).withField "NUM" (String.ofList text)

/-- A text is a number block where it reads as one, else a text block without its quotes. -/
def text (map : BlockMap) (s : List Char) : Descriptor :=
  let token := Text.trim s
  if isNumeric token then map.number token
  else
    let inner := if Quoted.isWhole token then (token.drop 1).dropLast else token
    (Descriptor.new map.value.text).withField "TEXT" (String.ofList inner)

def operand (map : BlockMap) : Value → Descriptor
  | .integer n => map.number (intDigits n.toInt)
  | .float x => map.number x.plain
  | .bool b => map.number (if b then ['1'] else ['0'])
  | .symbol (.slot place) =>
    (Descriptor.new map.value.slot).withField "VAR" (String.ofList place.chars)
  | .symbol (.sensor .touch) =>
    (Descriptor.new map.value.touch).withField "PIN" "PIN_TOUCH" |>.withField "MODE" "INPUT_PULLUP"
  | .symbol (.sensor .audio) =>
    (Descriptor.new map.value.audio).withField "PIN" "PIN_MIC" |>.withField "MODE" "INPUT_PULLUP"
  | .symbol (.sensor .light) => (Descriptor.new map.value.light).withField "PIN" "PIN_LIGHT"
  | .text s => map.text s.toList

/-- The name of a comparison in a compare block. -/
def comparisonName : Comparison → String
  | .eq => "EQ"
  | .ne => "NEQ"
  | .gt => "GT"
  | .ge => "GTE"
  | .lt => "LT"
  | .le => "LTE"

def compare (map : BlockMap) (c : Condition) : Descriptor :=
  (Descriptor.new map.structural.compare).withField "OP" (comparisonName c.op)
    |>.withInput "A" (map.operand c.left) |>.withInput "B" (map.operand c.right)

def both (map : BlockMap) (a b : Descriptor) : Descriptor :=
  (Descriptor.new map.structural.and).withField "OP" "AND" |>.withInput "A" a |>.withInput "B" b

/-- An `if` block around blocks that are already lowered. -/
def guarded (map : BlockMap) (condition : Descriptor) (body : Lowered) : Lowered :=
  ⟨[(Descriptor.new map.structural.branch).withInput "IF0" condition
    |>.withStatement "DO0" body.blocks], body.unmapped⟩

def lowerCommand (map : BlockMap) (token : String) : Lowered :=
  match map.command? token with
  | some blocks => ⟨blocks, []⟩
  | none => ⟨[], [token]⟩

/-- A value differs from every one of some others. -/
def differsFromAll (map : BlockMap) (value : Value) : Option Descriptor → List Value → Option Descriptor
  | condition, [] => condition
  | condition, other :: others =>
    let differs := map.compare ⟨.ne, value, other⟩
    let condition := match condition with
      | none => differs
      | some previous => map.both previous differs
    differsFromAll map value (some condition) others

/-- There is no block for an alternative, so a default is guarded by the negation of every case. With
no case there is nothing to guard it with, and it stands in the place of the whole. -/
def lowerDefault (map : BlockMap) (value : Value) (cases : List Value) (default : Lowered)
    (isEmpty : Bool) : Lowered :=
  if isEmpty then .empty
  else match map.differsFromAll value none cases with
    | none => default
    | some condition => map.guarded condition default

mutual

/-- The blocks of an instruction. The second branch of an `if` is an `if` of its own over the inverse
condition. -/
def lower (map : BlockMap) : Node → Lowered
  | .command token => map.lowerCommand token
  | .delay ms =>
    ⟨[(Descriptor.new map.structural.delay).withField "UNIT" "MILLISECONDS"
      |>.withInput "DELAY" (map.number (digits ms.toNat))], []⟩
  | .assign target op value =>
    let kind := match op with
      | .set => map.structural.setVar
      | .add => map.structural.changeVar
    ⟨[(Descriptor.new kind).withField "VAR" (String.ofList target.chars)
      |>.withInput "VALUE" (map.operand value)], []⟩
  | .branch condition yes no =>
    map.guarded (map.compare condition) (lowerAll map yes) ++
      if no.isEmpty then .empty
      else map.guarded (map.compare condition.inverted) (lowerAll map no)
  | .repeatWhile condition nodes =>
    let body := lowerAll map nodes
    ⟨[(Descriptor.new map.structural.repeatWhile).withField "MODE" "WHILE"
      |>.withInput "BOOL" (map.compare condition) |>.withStatement "DO" body.blocks], body.unmapped⟩
  | .count start stop step nodes =>
    let body := lowerAll map nodes
    ⟨[(Descriptor.new map.structural.count).withField "VAR" map.structural.counter
      |>.withInput "FROM" (map.number (intDigits start.toInt))
      |>.withInput "TO" (map.number (intDigits stop.toInt))
      |>.withInput "BY" (map.number (intDigits step.toInt))
      |>.withStatement "DO" body.blocks], body.unmapped⟩
  | .select value cases default =>
    lowerCases map value cases ++
      map.lowerDefault value (cases.map (·.1)) (lowerAll map default) default.isEmpty
  | .leave => ⟨[(Descriptor.new map.structural.leave).withField "FLOW" "BREAK"], []⟩

def lowerAll (map : BlockMap) : List Node → Lowered
  | [] => .empty
  | node :: nodes => lower map node ++ lowerAll map nodes

def lowerCases (map : BlockMap) (value : Value) : List (Value × List Node) → Lowered
  | [] => .empty
  | (wanted, nodes) :: cases =>
    map.guarded (map.compare ⟨.eq, value, wanted⟩) (lowerAll map nodes) ++ lowerCases map value cases

end

end BlockMap

/-- A program as blocks. -/
structure LoweredProgram where
  initFlags : List InitFlag
  setup : List Descriptor
  loop : List Descriptor
  unmapped : List String

def BlockMap.lowerProgram (map : BlockMap) (p : Program) : LoweredProgram :=
  let setup := map.lowerAll p.setup
  let loop := map.lowerAll p.loop
  ⟨p.initFlags, setup.blocks, loop.blocks, setup.unmapped ++ loop.unmapped⟩

end RobotScript.Block
