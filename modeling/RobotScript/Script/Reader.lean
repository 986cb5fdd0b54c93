import RobotScript.Script.Printer
import RobotScript.Text.Search

namespace RobotScript.Script

/-- Why a script is refused. -/
inductive Cause
  | expected (literal : String)
  | unknownFlag (token : List Char)
  | tooDeep
  | noToken
  | zeroStep
  | noSlotType
  | noSlotIndex
  | noAssignOp
  | noComparison
  | noInteger
  | unclosedQuote
  | noValue (found : List Char)

/-- A refusal, with what is left of the script from the place where it shows. -/
structure Fault where
  rest : List Char
  cause : Cause

def Cause.detail : Cause → String
  | .expected literal => "expected `" ++ literal ++ "`"
  | .unknownFlag token => "unknown init flag `" ++ String.ofList token ++ "`"
  | .tooDeep => "bodies nested too deeply"
  | .noToken => "expected a token"
  | .zeroStep => "for step must not be 0"
  | .noSlotType => "expected variable type I, F, C, S or B"
  | .noSlotIndex => "expected slot index 1..5"
  | .noAssignOp => "expected assignment op `=` or `+`"
  | .noComparison => "expected comparison operator"
  | .noInteger => "expected a 32-bit integer"
  | .unclosedQuote => "unterminated quoted value"
  | .noValue found => "expected a value, found `" ++ String.ofList found ++ "`"

/-- Reads a value off the front of a text. -/
abbrev Reader (α : Type) := List Char → Except Fault (α × List Char)

def expect (literal : String) (s : List Char) : Except Fault (List Char) :=
  match Text.strip? literal s with
  | some rest => .ok rest
  | none => .error ⟨s, .expected literal⟩

/-- Ends a value that is not quoted. -/
def isDelimiter (c : Char) : Bool := c ∈ [',', ')', '(', '|', '{', '}']

/-- A number whose digits are the ones that printing gives; any other spelling stays a text. -/
def readNumber (s : List Char) : Value :=
  match (readInt64? s).filter fun n => intDigits n.toInt == s with
  | some n => .integer n
  | none =>
    match (Floating.read? .binary64 s).filter fun x => x.isFinite && x.plain == s with
    | some x => .float x
    | none => .text (String.ofList s)

/-- The text of a quoted literal: its content if that prints as this literal, else the literal. -/
def readQuoted (literal : List Char) : Value :=
  let content := Quoted.decode (literal.drop 1).dropLast
  if literal.head? = some '"' ∧ textLiteral content = literal then .text (String.ofList content)
  else .text (String.ofList literal)

def readValue : Reader Value := fun s =>
  if (s.head?.map Quoted.isQuote).getD false then
    match Quoted.split? s with
    | some (literal, rest) => .ok (readQuoted literal, rest)
    | none => .error ⟨s, .unclosedQuote⟩
  else
    let raw := s.takeWhile (!isDelimiter ·)
    let rest := s.dropWhile (!isDelimiter ·)
    match Symbol.ofChars? raw with
    | some name => .ok (.symbol name, rest)
    | none => if isNumeric raw then .ok (readNumber raw, rest) else .error ⟨s, .noValue raw⟩

/-- The operators that are tried, a long one before its beginning. -/
def operators : List Comparison := [.ne, .ge, .le, .eq, .gt, .lt]

def readComparison : Reader Comparison := fun s =>
  match operators.findSome? fun op => (Text.strip? op.wire s).map fun rest => (op, rest) with
  | some found => .ok found
  | none => .error ⟨s, .noComparison⟩

def readCondition : Reader Condition := fun s => do
  let s ← expect "O" s
  let (op, s) ← readComparison s
  let s ← expect "," s
  let (left, s) ← readValue s
  let s ← expect "," s
  let (right, s) ← readValue s
  return (⟨op, left, right⟩, s)

def readInt : Reader Int32 := fun s =>
  let (sign, t) : List Char × List Char := match s with
    | '-' :: t => (['-'], t)
    | t => ([], t)
  match readInt32? (sign ++ t.takeWhile isDigit) with
  | some n => .ok (n, t.dropWhile isDigit)
  | none => .error ⟨s, .noInteger⟩

/-- A delay, if its digits are the ones that printing gives. -/
def delay? : List Char → Option UInt32
  | 'D' :: s => (readUInt32? s).filter fun ms => digits ms.toNat == s
  | _ => none

def readWord : Reader Node := fun s =>
  let word := s.takeWhile isCommandChar
  let rest := s.dropWhile isCommandChar
  if word.isEmpty then .error ⟨s, .noToken⟩
  else if word = ['X'] then .ok (.leave, rest)
  else match delay? word with
    | some ms => .ok (.delay ms, rest)
    | none => .ok (.command (String.ofList word), rest)

def readSlotType : Reader SlotType
  | [] => .error ⟨[], .noSlotType⟩
  | c :: s => match SlotType.ofCode? c with
    | some type => .ok (type, s)
    | none => .error ⟨c :: s, .noSlotType⟩

def readSlotIndex (type : SlotType) : Reader Slot
  | [] => .error ⟨[], .noSlotIndex⟩
  | c :: s => match if isDigit c then Slot.ofIndex? type (ofDigits [c]) else none with
    | some slot => .ok (slot, s)
    | none => .error ⟨c :: s, .noSlotIndex⟩

def readAssignOp : Reader AssignOp
  | '=' :: s => .ok (.set, s)
  | '+' :: s => .ok (.add, s)
  | s => .error ⟨s, .noAssignOp⟩

def readAssign : Reader Node := fun s => do
  let s ← expect "G(" s
  let (type, s) ← readSlotType s
  let s ← expect "," s
  let (target, s) ← readSlotIndex type s
  let s ← expect "," s
  let (op, s) ← readAssignOp s
  let s ← expect "," s
  let (value, s) ← readValue s
  let s ← expect ")" s
  return (.assign target op value, s)

/-- The tokens of a body up to its closing brace. The count bounds them; each has a character. -/
def readTokens (token : Reader Node) : Nat → Reader (List Node)
  | 0, s => .error ⟨s, .noToken⟩
  | count + 1, s => do
    let (node, s) ← token s
    match Text.strip? "|\x7d" s with
    | some rest => return ([node], rest)
    | none =>
      let s ← expect "|" s
      let (nodes, s) ← readTokens token count s
      return (node :: nodes, s)

/-- A body. With no reader for its tokens it lies too deep, whatever it holds. -/
def readBody (token? : Option (Reader Node)) : Reader (List Node) := fun s => do
  let s ← expect "\x7b" s
  match token? with
  | none => .error ⟨s, .tooDeep⟩
  | some token => match s with
    | '}' :: rest => return ([], rest)
    | s =>
      let s ← expect "|" s
      readTokens token s.length s

/-- The cases of a `select` and its default, up to the closing parenthesis. -/
def readCases (body : Reader (List Node)) :
    Nat → Reader (List (Value × List Node) × List Node)
  | 0, s => .error ⟨s, .noToken⟩
  | count + 1, s => do
    let s ← expect "(" s
    match Text.strip? "D)" s with
    | some s =>
      let (default, s) ← body s
      let s ← expect ")" s
      return (([], default), s)
    | none =>
      let (value, s) ← readValue s
      let s ← expect ")" s
      let (nodes, s) ← body s
      let s ← expect " " s
      let ((cases, default), s) ← readCases body count s
      return (((value, nodes) :: cases, default), s)

/-- A token, given the reader of the bodies in it. -/
def readNodeWith (body : Reader (List Node)) : Reader Node := fun s =>
  match s with
  | 'C' :: '(' :: s => do
    let (condition, s) ← readCondition s
    let s ← expect ")" s
    let (yes, s) ← body s
    let (no, s) ← body s
    return (.branch condition yes no, s)
  | 'W' :: '(' :: s => do
    let (condition, s) ← readCondition s
    let s ← expect ")" s
    let (nodes, s) ← body s
    return (.repeatWhile condition nodes, s)
  | 'F' :: '(' :: s => do
    let (start, s) ← readInt s
    let s ← expect "-" s
    let (stop, s) ← readInt s
    let s ← expect "," s
    let (step, s) ← readInt s
    let s ← expect ")" s
    if step = 0 then .error ⟨s, .zeroStep⟩
    else
      let (nodes, s) ← body s
      return (.count start stop step nodes, s)
  | 'K' :: '(' :: s => do
    let (value, s) ← readValue s
    let s ← expect ", " s
    let ((cases, default), s) ← readCases body (s.length + 1) s
    return (.select value cases default, s)
  | 'G' :: '(' :: _ => readAssign s
  | s => readWord s

/-- A token in which bodies nest at most `depth` deep. -/
def readNode : Nat → Reader Node
  | 0 => readNodeWith (readBody none)
  | depth + 1 => readNodeWith (readBody (some (readNode depth)))

/-- The deepest nesting of bodies that is read. -/
def maxDepth : Nat := 64

def readTop : Reader Node := readNode maxDepth

/-- The bar in front of an item of a list; the first item has none. -/
def skipBar (first : Bool) (s : List Char) : Except Fault (List Char) :=
  if first then .ok s else expect "|" s

/-- The flags up to the setup section; `first` says that none was read yet. -/
def readFlags : Nat → Bool → Reader (List InitFlag)
  | 0, _, s => .error ⟨s, .expected "|"⟩
  | count + 1, first, s =>
    if (Text.strip? "|S|" s).isSome then .ok ([], s)
    else do
      let s ← skipBar first s
      let token := s.takeWhile (· != '|')
      match InitFlag.ofChars? token with
      | none => .error ⟨s, .unknownFlag token⟩
      | some flag =>
        let (flags, s) ← readFlags count false (s.dropWhile (· != '|'))
        return (flag :: flags, s)

/-- The loop section, which ends with the bar that ends the script. -/
def readLoop : Nat → Bool → List Char → Except Fault (List Node)
  | 0, _, s => .error ⟨s, .expected "|"⟩
  | count + 1, first, s =>
    if s = ['|'] then .ok []
    else do
      let s ← skipBar first s
      let (node, s) ← readTop s
      let nodes ← readLoop count false s
      return node :: nodes

/-- Keeps the fault of the last loop section that was tried, as that one tells more. -/
def orElse {α : Type} (tried : Option Fault) (result : Except Fault α) : Except Fault α :=
  match result, tried with
  | .error _, some fault => .error fault
  | result, _ => result

/-- The two phases. A setup may hold a command `L`, so each `|L|` is tried as the boundary and the
first one whose remainder is a loop section wins. -/
def readPhases : Nat → Bool → Option Fault → List Char → Except Fault (List Node × List Node)
  | 0, _, _, s => .error ⟨s, .noToken⟩
  | count + 1, first, tried, s => do
    let attempt := (Text.strip? "|L|" s).map fun rest => readLoop (rest.length + 1) true rest
    match attempt with
    | some (.ok loop) => return ([], loop)
    | attempt =>
      let tried := match attempt with
        | some (.error fault) => some fault
        | _ => tried
      let s ← orElse tried (skipBar first s)
      let (node, s) ← orElse tried (readTop s)
      let (setup, loop) ← readPhases count false tried s
      return (node :: setup, loop)

def readProgram (s : List Char) : Except Fault Program := do
  let s ← expect "|I|" s
  let (flags, s) ← readFlags (s.length + 1) true s
  let s ← expect "|S|" s
  let (setup, loop) ← readPhases (s.length + 1) true none s
  return ⟨flags, setup, loop⟩

/-- Tokens with bars between them up to the end of the text. -/
def readTokenList : Nat → List Char → Except Fault (List Node)
  | 0, s => .error ⟨s, .noToken⟩
  | count + 1, s => do
    let (node, s) ← readTop s
    if s.isEmpty then return [node]
    else
      let s ← expect "|" s
      let nodes ← readTokenList count s
      return node :: nodes

/-- A refusal with the number of bytes in front of it. -/
structure Refusal where
  position : Nat
  cause : Cause

def Fault.locate (s : List Char) (fault : Fault) : Refusal :=
  ⟨Text.byteSize s - Text.byteSize fault.rest, fault.cause⟩

def Refusal.message (refusal : Refusal) : String :=
  "invalid script syntax at byte " ++ toString refusal.position ++ ": " ++ refusal.cause.detail

def located {α : Type} (s : List Char) (result : Except Fault α) : Except Refusal α :=
  result.mapError (·.locate s)

/-- Reads a whole script. -/
def parse (script : String) : Except Refusal Program :=
  located script.toList (readProgram script.toList)

/-- The text that a bare token list is read from: blanks and then bars around it do not count. -/
def tokenListCore (s : List Char) : List Char :=
  Text.dropEndWhile (· == '|') ((Text.trim s).dropWhile (· == '|'))

/-- Reads a bare token list such as `ERN|D200|ERF`. -/
def parseTokens (text : String) : Except Refusal (List Node) :=
  let s := tokenListCore text.toList
  if s.isEmpty then .ok [] else located s (readTokenList (s.length + 1) s)

end RobotScript.Script
