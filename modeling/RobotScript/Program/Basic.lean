import RobotScript.Program.Value

namespace RobotScript

/-- The comparisons of conditions. -/
inductive Comparison
  | eq
  | ne
  | gt
  | ge
  | lt
  | le
  deriving DecidableEq

namespace Comparison

def all : List Comparison := [.eq, .ne, .gt, .ge, .lt, .le]

/-- The operator in a description. -/
def symbol : Comparison → String
  | .eq => "=="
  | .ne => "!="
  | .gt => ">"
  | .ge => ">="
  | .lt => "<"
  | .le => "<="

/-- The operator in a script, where equality is a single sign. -/
def wire : Comparison → String
  | .eq => "="
  | other => other.symbol

def ofSymbol? (s : String) : Option Comparison := all.find? (·.symbol == s)

def ofWire? (s : String) : Option Comparison := all.find? (·.wire == s)

/-- Holds exactly where the comparison does not. -/
def inverse : Comparison → Comparison
  | .eq => .ne
  | .ne => .eq
  | .gt => .le
  | .ge => .lt
  | .lt => .ge
  | .le => .gt

end Comparison

/-- The condition of a branch or a loop. -/
structure Condition where
  op : Comparison
  left : Value
  right : Value
  deriving DecidableEq

namespace Condition

/-- `1 == 0`, which stands for every unusable condition. -/
def never : Condition := ⟨.eq, .integer 1, .integer 0⟩

def inverted (c : Condition) : Condition := { c with op := c.op.inverse }

def agrees (a b : Condition) : Bool :=
  a.op == b.op && a.left.agrees b.left && a.right.agrees b.right

end Condition

/-- Whether an assignment overwrites its slot or adds to it. -/
inductive AssignOp
  | set
  | add
  deriving DecidableEq

def AssignOp.symbol : AssignOp → String
  | .set => "="
  | .add => "+"

/-- One instruction. A case of a `select` is the value that it is for and its body. -/
inductive Node
  | command (token : String)
  | delay (ms : UInt32)
  | assign (target : Slot) (op : AssignOp) (value : Value)
  | branch (condition : Condition) (yes no : List Node)
  | repeatWhile (condition : Condition) (body : List Node)
  | count (start stop step : Int32) (body : List Node)
  | select (value : Value) (cases : List (Value × List Node)) (default : List Node)
  | leave

namespace Node

mutual

/-- Equality of instructions, where floats are compared as numbers. -/
def agrees : Node → Node → Bool
  | .command a, .command b => a == b
  | .delay a, .delay b => a == b
  | .assign s o v, .assign s' o' v' => s == s' && o == o' && v.agrees v'
  | .branch c y n, .branch c' y' n' => c.agrees c' && agreeAll y y' && agreeAll n n'
  | .repeatWhile c b, .repeatWhile c' b' => c.agrees c' && agreeAll b b'
  | .count a b c d, .count a' b' c' d' => a == a' && b == b' && c == c' && agreeAll d d'
  | .select v cs d, .select v' cs' d' => v.agrees v' && agreeCases cs cs' && agreeAll d d'
  | .leave, .leave => true
  | _, _ => false

def agreeAll : List Node → List Node → Bool
  | [], [] => true
  | a :: as, b :: bs => agrees a b && agreeAll as bs
  | _, _ => false

def agreeCases : List (Value × List Node) → List (Value × List Node) → Bool
  | [], [] => true
  | (v, a) :: as, (w, b) :: bs => v.agrees w && agreeAll a b && agreeCases as bs
  | _, _ => false

end

end Node

/-- The length of the longest command token. -/
def maxCommandLength : Nat := 32

/-- A command is an upper-case letter, then upper-case letters, digits and underscores. -/
def isCommandChar (c : Char) : Bool := ('A' ≤ c && c ≤ 'Z') || isDigit c || c == '_'

def isCommandToken (s : List Char) : Bool :=
  match s with
  | [] => false
  | c :: _ => 'A' ≤ c && c ≤ 'Z' && s.length ≤ maxCommandLength && s.all isCommandChar

/-- The length of the longest pairing name. -/
def maxPairingLength : Nat := 32

/-- A part of the robot that a script has to start, in wire order, or the name that it pairs under. -/
inductive InitFlag
  | eyes
  | buzzer
  | motors
  | touch
  | audio
  | light
  | pairing (name : String)
  deriving DecidableEq

namespace InitFlag

/-- A pairing name keeps clear of controls and of all that delimits a script. -/
def isPairingChar (c : Char) : Bool :=
  !Text.isControl c && !(c ∈ ['"', '\\', '|', '{', '}', '(', ')'])

/-- The name in `R"name"`. -/
def pairingName? : List Char → Option (List Char)
  | 'R' :: '"' :: s =>
    if s.getLast? = some '"' then
      let name := s.dropLast
      if name ≠ [] ∧ name.length ≤ maxPairingLength ∧ name.all isPairingChar then some name else none
    else none
  | _ => none

def chars : InitFlag → List Char
  | .eyes => ['E']
  | .buzzer => ['B']
  | .motors => ['M']
  | .touch => ['T']
  | .audio => ['A']
  | .light => ['V']
  | .pairing name => "R\"".toList ++ name.toList ++ ['"']

def ofChars? : List Char → Option InitFlag
  | ['E'] => some .eyes
  | ['B'] => some .buzzer
  | ['M'] => some .motors
  | ['T'] => some .touch
  | ['A'] => some .audio
  | ['V'] => some .light
  | s => (pairingName? s).map fun name => .pairing (String.ofList name)

def ofSensor : Sensor → InitFlag
  | .touch => .touch
  | .audio => .audio
  | .light => .light

end InitFlag

/-- What the robot starts, what it runs once, and what it runs for ever. -/
structure Program where
  initFlags : List InitFlag
  setup : List Node
  loop : List Node

namespace Program

def empty : Program := ⟨[], [], []⟩

/-- There is nothing to run. -/
def isEmpty (p : Program) : Bool := p.setup.isEmpty && p.loop.isEmpty

def agrees (p q : Program) : Bool :=
  p.initFlags == q.initFlags && Node.agreeAll p.setup q.setup && Node.agreeAll p.loop q.loop

end Program

end RobotScript
