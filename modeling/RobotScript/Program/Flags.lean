import RobotScript.Program.Basic

namespace RobotScript

/-- The part of the robot that a command drives: `E`, a colour and `N` or `F` the eyes, `M` and a
direction the wheels, and all that begins with `BS`, `BN` or `BF` the buzzer. -/
def commandFlag? : List Char → Option InitFlag
  | ['E', color, state] =>
    if color ∈ ['R', 'G', 'B', 'A'] ∧ state ∈ ['N', 'F'] then some .eyes else none
  | ['M', direction] => if direction ∈ ['F', 'B', 'L', 'R', 'S'] then some .motors else none
  | 'B' :: sound :: _ => if sound ∈ ['S', 'N', 'F'] then some .buzzer else none
  | _ => none

namespace InitFlag

/-- The flags that a program can need, in wire order. -/
def enumerated : List InitFlag := [.eyes, .buzzer, .motors, .touch, .audio, .light]

end InitFlag

def Value.flags (v : Value) : List InitFlag := (v.sensor?.map InitFlag.ofSensor).toList

def Condition.flags (c : Condition) : List InitFlag := c.left.flags ++ c.right.flags

namespace Node

mutual

/-- The flags that an instruction and all inside it need, in the order in which they are met. -/
def flags : Node → List InitFlag
  | .command token => (commandFlag? token.toList).toList
  | .delay _ => []
  | .assign _ _ value => value.flags
  | .branch condition yes no => condition.flags ++ flagsAll yes ++ flagsAll no
  | .repeatWhile condition body => condition.flags ++ flagsAll body
  | .count _ _ _ body => flagsAll body
  | .select value cases default => value.flags ++ flagsCases cases ++ flagsAll default
  | .leave => []

def flagsAll : List Node → List InitFlag
  | [] => []
  | node :: nodes => flags node ++ flagsAll nodes

def flagsCases : List (Value × List Node) → List InitFlag
  | [] => []
  | (value, body) :: cases => value.flags ++ flagsAll body ++ flagsCases cases

end

end Node

/-- The flags that two phases need, each once and in wire order. -/
def inferFlags (setup loop : List Node) : List InitFlag :=
  let met := Node.flagsAll setup ++ Node.flagsAll loop
  InitFlag.enumerated.filter (· ∈ met)

end RobotScript
