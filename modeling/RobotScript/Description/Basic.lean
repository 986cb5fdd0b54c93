import RobotScript.Program.Basic

namespace RobotScript

def Condition.toJson (c : Condition) : Json :=
  .object [("op", .string c.op.symbol), ("left", c.left.toJson), ("right", c.right.toJson)]

namespace Node

mutual

/-- The instruction as a description writes it. -/
def toJson : Node → Json
  | .command token => .object [("type", .string "cmd"), ("cmd", .string token)]
  | .delay ms => .object [("type", .string "delay"), ("ms", .ofInt ms.toNat)]
  | .assign target op value => .object [("type", .string "set_var"),
      ("varType", .string (String.singleton target.type.code)), ("index", .ofInt target.index),
      ("op", .string op.symbol), ("value", value.toJson)]
  | .branch condition yes no => .object [("type", .string "if"), ("expr", condition.toJson),
      ("then", .array (toJsonAll yes)), ("else", .array (toJsonAll no))]
  | .repeatWhile condition body => .object [("type", .string "while"), ("expr", condition.toJson),
      ("body", .array (toJsonAll body))]
  | .count start stop step body => .object [("type", .string "for"), ("start", .ofInt start.toInt),
      ("end", .ofInt stop.toInt), ("step", .ofInt step.toInt), ("body", .array (toJsonAll body))]
  | .select value cases default => .object [("type", .string "switch"), ("value", value.toJson),
      ("cases", .array (toJsonCases cases)), ("default", .array (toJsonAll default))]
  | .leave => .object [("type", .string "break")]

def toJsonAll : List Node → List Json
  | [] => []
  | node :: nodes => toJson node :: toJsonAll nodes

def toJsonCases : List (Value × List Node) → List Json
  | [] => []
  | (value, body) :: cases =>
    .object [("match", value.toJson), ("body", .array (toJsonAll body))] :: toJsonCases cases

end

end Node

/-- The program as a description that is cleaned into the program again. -/
def Program.toJson (p : Program) : Json :=
  .object [("initFlags", .array (p.initFlags.map fun flag => Json.ofChars flag.chars)),
    ("setup", .array (Node.toJsonAll p.setup)), ("loop", .array (Node.toJsonAll p.loop))]

end RobotScript
