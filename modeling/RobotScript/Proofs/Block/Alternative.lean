import RobotScript.Proofs.Block.Execution

namespace RobotScript

namespace Node

mutual

/-- On the way of a run, the first body of a branch never makes the condition false, unless there is no second. -/
def Settled (sensors : Sensor → Int) : Node → Progress String → Prop
  | .branch condition yes no, s =>
    if condition.holds sensors s.slots then
      SettledAll sensors yes s ∧ (no = [] ∨ condition.holds sensors (runAll sensors yes s).slots)
    else SettledAll sensors no s
  | _, _ => True

def SettledAll (sensors : Sensor → Int) : List Node → Progress String → Prop
  | [], _ => True
  | node :: nodes, s => Settled sensors node s ∧ SettledAll sensors nodes (run sensors node s)

end

end Node

namespace Block.BlockMap

variable {map : BlockMap} {sensors : Sensor → Int}

open Node

end Block.BlockMap

end RobotScript
