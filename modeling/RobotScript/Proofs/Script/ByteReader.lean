import RobotScript.Proofs.Script.Bytes

namespace RobotScript.Script.ByteReader

/-- What a step of reading by bytes comes to. It gets stuck where it asks a text for a slice that the text does not
have, or where it takes more turns than the text has bytes. -/
abbrev Outcome := ExceptT Refusal Option

/-- Reads a value at a place, which is the number of bytes in front of it. -/
abbrev Reading (α : Type) := Nat → Outcome (α × Nat)

def stuck {α : Type} : Outcome α := ExceptT.mk none

def refuse {α : Type} (cause : Cause) (i : Nat) : Outcome α := throw ⟨i, cause⟩

/-- The part of a text between two places. Both have to lie inside the text and not inside a character. -/
def slice (text : String) (i j : Nat) : Outcome (List Char) :=
  if inside : String.Pos.Raw.IsValid text ⟨i⟩ ∧ String.Pos.Raw.IsValid text ⟨j⟩ ∧ i ≤ j then
    return (text.extract ⟨⟨i⟩, inside.1⟩ ⟨⟨j⟩, inside.2.1⟩).toList
  else stuck

variable (text : String)

/-- The bytes of a text, each as the character with its number. -/
def bytes : List Char := text.toUTF8.toList.map latin

def current (i : Nat) : Option Char := (bytes text)[i]?

/-- The place behind a run of bytes in a class. -/
def skipWhile (p : Char → Bool) (i : Nat) : Nat := i + (((bytes text).drop i).takeWhile p).length

def rest (i : Nat) : Outcome (List Char) := slice text i text.utf8ByteSize

def startsWith (literal : String) (i : Nat) : Outcome Bool := do
  return (Text.strip? literal (← rest text i)).isSome

def expect (literal : String) (i : Nat) : Outcome Nat := do
  if ← startsWith text literal i then return i + literal.utf8ByteSize
  else refuse (.expected literal) i

/-- The content of a literal is a slice of it, too. -/
def readQuoted (quote : Char) : Reading Value := fun i => do
  match Quoted.scan? (String.ofList (← rest text i)) with
  | none => refuse .unclosedQuote i
  | some size =>
    let literal ← slice text i (i + size)
    if quote = '"' then
      let inner ← slice (String.ofList literal) 1 (size - 1)
      let content := Quoted.decode inner
      if textLiteral content = literal then return (.text (String.ofList content), i + size)
      else return (.text (String.ofList literal), i + size)
    else return (.text (String.ofList literal), i + size)

def readBare : Reading Value := fun i => do
  let j := skipWhile text (!isDelimiter ·) i
  let raw ← slice text i j
  match Symbol.ofChars? raw with
  | some name => return (.symbol name, j)
  | none => if isNumeric raw then return (readNumber raw, j) else refuse (.noValue raw) i

def readValue : Reading Value := fun i =>
  match (current text i).filter Quoted.isQuote with
  | some quote => readQuoted text quote i
  | none => readBare text i

def readComparison : Reading Comparison := fun i => do
  match ← operators.findM? fun op => startsWith text op.wire i with
  | some op => return (op, i + op.wire.utf8ByteSize)
  | none => refuse .noComparison i

def readCondition : Reading Condition := fun i => do
  let i ← expect text "O" i
  let (op, i) ← readComparison text i
  let i ← expect text "," i
  let (left, i) ← readValue text i
  let i ← expect text "," i
  let (right, i) ← readValue text i
  return (⟨op, left, right⟩, i)

def readInt : Reading Int32 := fun i => do
  let j := skipWhile text isDigit (if current text i = some '-' then i + 1 else i)
  match readInt32? (← slice text i j) with
  | some n => return (n, j)
  | none => refuse .noInteger i

def readWord : Reading Node := fun i => do
  let j := skipWhile text isCommandChar i
  let word ← slice text i j
  if word.isEmpty then refuse .noToken j
  else if word = ['X'] then return (.leave, j)
  else match delay? word with
    | some ms => return (.delay ms, j)
    | none => return (.command (String.ofList word), j)

def readSlotType : Reading SlotType := fun i =>
  match (current text i).bind SlotType.ofCode? with
  | some type => return (type, i + 1)
  | none => refuse .noSlotType i

def readSlotIndex (type : SlotType) : Reading Slot := fun i =>
  match ((current text i).filter isDigit).bind fun c => Slot.ofIndex? type (ofDigits [c]) with
  | some slot => return (slot, i + 1)
  | none => refuse .noSlotIndex i

def readAssignOp : Reading AssignOp := fun i =>
  match current text i with
  | some '=' => return (.set, i + 1)
  | some '+' => return (.add, i + 1)
  | _ => refuse .noAssignOp i

def readAssign : Reading Node := fun i => do
  let i ← expect text "G(" i
  let (type, i) ← readSlotType text i
  let i ← expect text "," i
  let (target, i) ← readSlotIndex text type i
  let i ← expect text "," i
  let (op, i) ← readAssignOp text i
  let i ← expect text "," i
  let (value, i) ← readValue text i
  let i ← expect text ")" i
  return (.assign target op value, i)

/-- The count of the turns that a loop may take. -/
def turns : Nat := text.utf8ByteSize + 1

def readTokens (token : Reading Node) : Nat → Reading (List Node)
  | 0, _ => stuck
  | count + 1, i => do
    let (node, i) ← token i
    if ← startsWith text "|\x7d" i then return ([node], i + 2)
    else
      let i ← expect text "|" i
      let (nodes, i) ← readTokens token count i
      return (node :: nodes, i)

def readBody (token? : Option (Reading Node)) : Reading (List Node) := fun i => do
  let i ← expect text "\x7b" i
  match token? with
  | none => refuse .tooDeep i
  | some token =>
    if current text i = some '}' then return ([], i + 1)
    else
      let i ← expect text "|" i
      readTokens text token (turns text) i

def readCases (body : Reading (List Node)) : Nat → Reading (List (Value × List Node) × List Node)
  | 0, _ => stuck
  | count + 1, i => do
    let i ← expect text "(" i
    if ← startsWith text "D)" i then
      let (default, i) ← body (i + 2)
      let i ← expect text ")" i
      return (([], default), i)
    else
      let (value, i) ← readValue text i
      let i ← expect text ")" i
      let (nodes, i) ← body i
      let i ← expect text " " i
      let ((cases, default), i) ← readCases body count i
      return (((value, nodes) :: cases, default), i)

section Nodes

variable (body : Reading (List Node))

def readBranch : Reading Node := fun i => do
  let i ← expect text "C(" i
  let (condition, i) ← readCondition text i
  let i ← expect text ")" i
  let (yes, i) ← body i
  let (no, i) ← body i
  return (.branch condition yes no, i)

def readRepeat : Reading Node := fun i => do
  let i ← expect text "W(" i
  let (condition, i) ← readCondition text i
  let i ← expect text ")" i
  let (nodes, i) ← body i
  return (.repeatWhile condition nodes, i)

def readCount : Reading Node := fun i => do
  let i ← expect text "F(" i
  let (start, i) ← readInt text i
  let i ← expect text "-" i
  let (stop, i) ← readInt text i
  let i ← expect text "," i
  let (step, i) ← readInt text i
  let i ← expect text ")" i
  if step = 0 then refuse .zeroStep i
  else
    let (nodes, i) ← body i
    return (.count start stop step nodes, i)

def readSelect : Reading Node := fun i => do
  let i ← expect text "K(" i
  let (value, i) ← readValue text i
  let i ← expect text ", " i
  let ((cases, default), i) ← readCases text body (turns text) i
  return (.select value cases default, i)

def readNodeWith : Reading Node := fun i =>
  match current text i, current text (i + 1) with
  | some 'C', some '(' => readBranch text body i
  | some 'W', some '(' => readRepeat text body i
  | some 'F', some '(' => readCount text body i
  | some 'K', some '(' => readSelect text body i
  | some 'G', some '(' => readAssign text i
  | _, _ => readWord text i

end Nodes

def readNode : Nat → Reading Node
  | 0 => readNodeWith text (readBody text none)
  | depth + 1 => readNodeWith text (readBody text (some (readNode depth)))

def readTop : Reading Node := readNode text maxDepth

def skipBar (first : Bool) (i : Nat) : Outcome Nat := if first then return i else expect text "|" i

def readFlags : Nat → Bool → Reading (List InitFlag)
  | 0, _, _ => stuck
  | count + 1, first, i => do
    if ← startsWith text "|S|" i then return ([], i)
    else
      let i ← skipBar text first i
      let j := skipWhile text (· != '|') i
      let token ← slice text i j
      match InitFlag.ofChars? token with
      | none => refuse (.unknownFlag token) i
      | some flag =>
        let (flags, i) ← readFlags count false j
        return (flag :: flags, i)

def readLoop : Nat → Bool → Nat → Outcome (List Node)
  | 0, _, _ => stuck
  | count + 1, first, i => do
    if (← rest text i) = ['|'] then return []
    else
      let i ← skipBar text first i
      let (node, i) ← readTop text i
      let nodes ← readLoop count false i
      return node :: nodes

def orElse {α : Type} (tried : Option Refusal) (result : Outcome α) : Outcome α :=
  tryCatch result fun refusal => throw (tried.getD refusal)

/-- What the loop section comes to that may start at a place. -/
def tryLoop (i : Nat) : Outcome (Option (Except Refusal (List Node))) := do
  if ← startsWith text "|L|" i then return some (← ExceptT.lift (readLoop text (turns text) true (i + 3)).run)
  else return none

def readPhases : Nat → Bool → Option Refusal → Nat → Outcome (List Node × List Node)
  | 0, _, _, _ => stuck
  | count + 1, first, tried, i => do
    match ← tryLoop text i with
    | some (.ok loop) => return ([], loop)
    | attempt =>
      let tried := match attempt with
        | some (.error refusal) => some refusal
        | _ => tried
      let i ← orElse tried (skipBar text first i)
      let (node, i) ← orElse tried (readTop text i)
      let (setup, loop) ← readPhases count false tried i
      return (node :: setup, loop)

def readTokenList : Nat → Nat → Outcome (List Node)
  | 0, _ => stuck
  | count + 1, i => do
    let (node, i) ← readTop text i
    if text.utf8ByteSize ≤ i then return [node]
    else
      let i ← expect text "|" i
      let nodes ← readTokenList count i
      return node :: nodes

/-- Reads a script by places in its bytes. -/
def parse (script : String) : Outcome Program := do
  let i ← expect script "|I|" 0
  let (flags, i) ← readFlags script (turns script) true i
  let i ← expect script "|S|" i
  let (setup, loop) ← readPhases script (turns script) true none i
  return ⟨flags, setup, loop⟩

/-- What a bare token list is read from. -/
def core (text : String) : String := String.ofList (tokenListCore text.toList)

def parseTokens (text : String) : Outcome (List Node) :=
  if (core text).utf8ByteSize = 0 then return [] else readTokenList (core text) (turns (core text)) 0

end RobotScript.Script.ByteReader
