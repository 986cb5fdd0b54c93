import RobotScript.Block.Lowering
import RobotScript.Proofs.Block.ProgramTree
import RobotScript.Proofs.Program.Symbol

namespace RobotScript

/-- A robot while it runs: the integer in each slot, and all that it has performed. -/
structure Progress (α : Type) where
  slots : Slot → Int
  performed : List α

namespace Progress

variable {α : Type}

def perform (s : Progress α) (deeds : List α) : Progress α := { s with performed := s.performed ++ deeds }

def assign (s : Progress α) (target : Slot) (op : AssignOp) (n : Int) : Progress α :=
  let content := match op with
    | .set => n
    | .add => s.slots target + n
  { s with slots := fun slot => if slot = target then content else s.slots slot }

end Progress

namespace Comparison

variable {V : Type} [DecidableEq V] [LT V] [DecidableLT V] [LE V] [DecidableLE V]

def holds (op : Comparison) (a b : V) : Bool :=
  match op with
  | .eq => a = b
  | .ne => a ≠ b
  | .gt => b < a
  | .ge => b ≤ a
  | .lt => a < b
  | .le => a ≤ b

theorem holds_inverse (total : ∀ a b : V, ¬a ≤ b ↔ b < a) (op : Comparison) (a b : V) :
    op.inverse.holds a b = !op.holds a b := by
  cases op <;> simp [inverse, holds, ← total]

end Comparison

/-- The integer that an operand stands for. A float or a text stands for none, and is read as zero. -/
def Value.eval (sensors : Sensor → Int) (slots : Slot → Int) : Value → Int
  | .integer n => n.toInt
  | .bool b => if b then 1 else 0
  | .symbol (.slot place) => slots place
  | .symbol (.sensor source) => sensors source
  | .float _ => 0
  | .text _ => 0

def Condition.holds (c : Condition) (sensors : Sensor → Int) (slots : Slot → Int) : Bool :=
  c.op.holds (c.left.eval sensors slots) (c.right.eval sensors slots)

namespace Node

mutual

/-- Runs commands, assignments and branches: the condition of a branch is tested once, and one of the two bodies
runs. -/
def run (sensors : Sensor → Int) : Node → Progress String → Progress String
  | .command token, s => s.perform [token]
  | .assign target op value, s => s.assign target op (value.eval sensors s.slots)
  | .branch condition yes no, s =>
    if condition.holds sensors s.slots then runAll sensors yes s else runAll sensors no s
  | _, s => s

def runAll (sensors : Sensor → Int) : List Node → Progress String → Progress String
  | [], s => s
  | node :: nodes, s => runAll sensors nodes (run sensors node s)

end

end Node

namespace Block.BlockMap

variable (map : BlockMap) (sensors : Sensor → Int)

/-- The integer that an operand block stands for. -/
def operand? (slots : Slot → Int) (d : Descriptor) : Option Int :=
  if d.kind = map.value.number then d.fields.get? "NUM" >>= fun s => readInt? s.toList
  else if d.kind = map.value.slot then
    d.fields.get? "VAR" >>= fun s => (Symbol.ofChars? s.toList).map fun name => Value.eval sensors slots (.symbol name)
  else if d.kind = map.value.touch then some (sensors .touch)
  else if d.kind = map.value.audio then some (sensors .audio)
  else if d.kind = map.value.light then some (sensors .light)
  else none

/-- The operator that a compare block names. -/
def comparison? : String → Option Comparison
  | "EQ" => some .eq
  | "NEQ" => some .ne
  | "LT" => some .lt
  | "LTE" => some .le
  | "GT" => some .gt
  | "GTE" => some .ge
  | _ => none

/-- Whether a compare block holds. -/
def test? (slots : Slot → Int) (d : Descriptor) : Option Bool := do
  if d.kind = map.structural.compare then
    let op ← comparison? (← d.fields.get? "OP")
    let a ← map.operand? sensors slots (← d.inputs.get? "A")
    let b ← map.operand? sensors slots (← d.inputs.get? "B")
    return op.holds a b
  else none

def slot? (d : Descriptor) : Option Slot := do
  match ← Symbol.ofChars? (← d.fields.get? "VAR").toList with
  | .slot place => return place
  | .sensor _ => none

mutual

/-- Executes a block. An `if` block tests its own condition when its turn comes; a block that is for neither a
branch nor an assignment is performed. -/
def execute : Descriptor → Progress Descriptor → Option (Progress Descriptor)
  | .mk kind fields inputs statements, s =>
    if kind = map.structural.branch then do
      if ← map.test? sensors s.slots (← Dictionary.get? inputs "IF0") then executeStatement "DO0" statements s
      else return s
    else if kind = map.structural.setVar ∨ kind = map.structural.changeVar then do
      let target ← slot? (.mk kind fields inputs statements)
      let n ← map.operand? sensors s.slots (← Dictionary.get? inputs "VALUE")
      return s.assign target (if kind = map.structural.setVar then .set else .add) n
    else some (s.perform [.mk kind fields inputs statements])

def executeAll : List Descriptor → Progress Descriptor → Option (Progress Descriptor)
  | [], s => some s
  | block :: chain, s => execute block s >>= executeAll chain

/-- Executes the chain under a name; where none is recorded there is nothing to do. -/
def executeStatement (name : String) {bound : Option String} :
    Ascending (List Descriptor) bound → Progress Descriptor → Option (Progress Descriptor)
  | .nil, s => some s
  | .cons other _ chain statements, s =>
    if other = name then executeAll chain s else executeStatement name statements s

end

variable {map} {sensors}

section Expansion

variable {s : Progress String} {t : Progress Descriptor}

end Expansion

end Block.BlockMap

end RobotScript
