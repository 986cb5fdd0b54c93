import RobotScript.Script.Literal

namespace RobotScript

def Value.chars : Value → List Char
  | .integer n => intDigits n.toInt
  | .float x => x.plain
  | .bool b => if b then ['1'] else ['0']
  | .symbol name => name.chars
  | .text s => textLiteral s.toList

def Condition.chars (c : Condition) : List Char :=
  'O' :: c.op.wire.toList ++ ',' :: c.left.chars ++ ',' :: c.right.chars

namespace Script

def join (tokens : List (List Char)) : List Char := ['|'].intercalate tokens

/-- A body has bars around its tokens, and none where it has no token. -/
def body (tokens : List (List Char)) : List Char :=
  if tokens.isEmpty then ['{', '}'] else "\x7b|".toList ++ join tokens ++ "|\x7d".toList

end Script

namespace Node

mutual

/-- The token of an instruction. -/
def chars : Node → List Char
  | .command token => token.toList
  | .delay ms => 'D' :: digits ms.toNat
  | .assign target op value =>
    "G(".toList ++ target.type.code :: ',' :: digits target.index ++ ',' :: op.symbol.toList ++
      ',' :: value.chars ++ [')']
  | .branch condition yes no =>
    "C(".toList ++ condition.chars ++ ')' :: Script.body (charsAll yes) ++ Script.body (charsAll no)
  | .repeatWhile condition nodes =>
    "W(".toList ++ condition.chars ++ ')' :: Script.body (charsAll nodes)
  | .count start stop step nodes =>
    "F(".toList ++ intDigits start.toInt ++ '-' :: intDigits stop.toInt ++
      ',' :: intDigits step.toInt ++ ')' :: Script.body (charsAll nodes)
  | .select value cases default =>
    "K(".toList ++ value.chars ++ ", ".toList ++ charsCases cases ++
      "(D)".toList ++ Script.body (charsAll default) ++ [')']
  | .leave => ['X']

def charsAll : List Node → List (List Char)
  | [] => []
  | node :: nodes => chars node :: charsAll nodes

def charsCases : List (Value × List Node) → List Char
  | [] => []
  | (value, nodes) :: cases =>
    '(' :: value.chars ++ ')' :: Script.body (charsAll nodes) ++ ' ' :: charsCases cases

end

def render (node : Node) : String := String.ofList node.chars

end Node

namespace Program

/-- The script of a program; every program has one. -/
def chars (p : Program) : List Char :=
  "|I|".toList ++ Script.join (p.initFlags.map InitFlag.chars) ++
    "|S|".toList ++ Script.join (Node.charsAll p.setup) ++
    "|L|".toList ++ Script.join (Node.charsAll p.loop) ++ ['|']

def render (p : Program) : String := String.ofList p.chars

end Program

/-- What is sent where nothing better is known. -/
def fallbackScript : String := "|I||S||L||"

end RobotScript
