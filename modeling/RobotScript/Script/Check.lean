import RobotScript.Script.Reader

namespace RobotScript.Script

/-- Why a script is not sent. -/
inductive Flaw
  | empty
  | sections
  | noFinalBar
  | unclosedQuote (index : Nat)
  | unbalanced (index : Nat)
  | missingCloser
  | argumentCount (fragment : List Char)
  | slotType (fragment argument : List Char)
  | operandCount (fragment : List Char)

namespace Flaw

def detail : Flaw → String
  | .empty => "Script is empty."
  | .sections => "Script must contain ordered |I|, |S|, |L| sections."
  | .noFinalBar => "Script must end with |."
  | .unclosedQuote index => "Unterminated quoted value near index " ++ toString index ++ "."
  | .unbalanced index => "Unbalanced delimiters near index " ++ toString index ++ "."
  | .missingCloser => "Unbalanced delimiters: missing closing bracket."
  | .argumentCount fragment => "Malformed " ++ String.ofList fragment ++ ": expected 4 arguments."
  | .slotType fragment argument =>
    "Malformed " ++ String.ofList fragment ++ ": invalid type " ++ String.ofList argument ++ "."
  | .operandCount fragment =>
    "Malformed expression " ++ String.ofList fragment ++ ": expected 2 operands."

def message (flaw : Flaw) : String := "script validation failed: " ++ flaw.detail

end Flaw

/-- A script cut at its quoted literals. A quote that nothing closes takes all that follows. -/
inductive Segment
  | char (c : Char)
  | quoted (literal : List Char)
  | unclosed (rest : List Char)

/-- The segments of a text; the count bounds them, and each has a character. -/
def segmentsUpTo : Nat → List Char → List Segment
  | 0, _ => []
  | _, [] => []
  | count + 1, c :: s =>
    if Quoted.isQuote c then
      match Quoted.split? (c :: s) with
      | some (literal, rest) => .quoted literal :: segmentsUpTo count rest
      | none => [.unclosed (c :: s)]
    else .char c :: segmentsUpTo count s

def segments (s : List Char) : List Segment := segmentsUpTo s.length s

/-- A quoted literal with its content taken out. -/
def Segment.emptied : Segment → List Char
  | .char c => [c]
  | .quoted literal => literal.take 1 ++ literal.take 1
  | .unclosed rest => rest

/-- The text with the content of every quoted literal taken out. -/
def withoutQuoted (s : List Char) : List Char := (segments s).flatMap Segment.emptied

/-- The bracket that closes an opening one. -/
def closer? : Char → Option Char
  | '(' => some ')'
  | '{' => some '}'
  | _ => none

def isCloser (c : Char) : Bool := c == ')' || c == '}'

/-- Checks the brackets outside the quoted literals: `pending` are the closing ones that are due, the
next one first, and `index` is the number of bytes before the segments. -/
def checkBrackets : List Char → Nat → List Segment → Except Flaw Unit
  | [], _, [] => .ok ()
  | _ :: _, _, [] => .error .missingCloser
  | _, index, .unclosed _ :: _ => .error (.unclosedQuote index)
  | pending, index, .quoted literal :: rest =>
    checkBrackets pending (index + Text.byteSize literal) rest
  | pending, index, .char c :: rest =>
    match closer? c with
    | some closer => checkBrackets (closer :: pending) (index + c.utf8Size) rest
    | none =>
      if isCloser c then
        match pending with
        | due :: pending =>
          if due = c then checkBrackets pending (index + c.utf8Size) rest
          else .error (.unbalanced index)
        | [] => .error (.unbalanced index)
      else checkBrackets pending (index + c.utf8Size) rest

def checkBalanced (s : List Char) : Except Flaw Unit := checkBrackets [] 0 (segments s)

/-- What stands between `G(` and the next `)`, each time from behind the last one. -/
def assignments : Nat → List Char → List (List Char)
  | 0, _ => []
  | count + 1, s =>
    match (Text.seek? "G(" s).map (·.drop 2) with
    | none => []
    | some s => match s.dropWhile (· != ')') with
      | [] => []
      | _ :: rest => s.takeWhile (· != ')') :: assignments count rest

def isOperatorChar (c : Char) : Bool := c ∈ ['!', '<', '>', '=', '+', '-', '*', '/']

def isBracketOrBar (c : Char) : Bool := c ∈ ['|', '{', '}', '(', ')']

/-- A condition as it looks from outside: its operator, its left operand, and all that stands in the
place of the right one, commas included. -/
structure ConditionFragment where
  op : List Char
  left : List Char
  right : List Char

def ConditionFragment.chars (fragment : ConditionFragment) : List Char :=
  'O' :: fragment.op ++ ',' :: fragment.left ++ ',' :: fragment.right

/-- A condition at the front, and what follows it. -/
def conditionAt? : List Char → Option (ConditionFragment × List Char)
  | 'O' :: s =>
    let op := s.takeWhile isOperatorChar
    if op.length = 1 ∨ op.length = 2 then
      match s.dropWhile isOperatorChar with
      | ',' :: s =>
        let inLeft (c : Char) : Bool := c != ',' && !isBracketOrBar c
        match s.dropWhile inLeft with
        | ',' :: t =>
          let left := s.takeWhile inLeft
          let right := t.takeWhile (!isBracketOrBar ·)
          if left.isEmpty || right.isEmpty then none
          else some (⟨op, left, right⟩, t.dropWhile (!isBracketOrBar ·))
        | _ => none
      | _ => none
    else none
  | _ => none

/-- The conditions in a text, each looked for from behind the last one. -/
def conditions : Nat → List Char → List ConditionFragment
  | 0, _ => []
  | _, [] => []
  | count + 1, c :: s =>
    match conditionAt? (c :: s) with
    | some (fragment, rest) => fragment :: conditions count rest
    | none => conditions count s

/-- An assignment has four arguments, the first of them the letter of a slot type. -/
def checkAssignment (arguments : List Char) : Except Flaw Unit :=
  let fragment := "G(".toList ++ arguments ++ [')']
  match arguments.splitOn ',' with
  | [type, _, _, _] =>
    match type with
    | [code] =>
      if (SlotType.ofCode? code).isSome then .ok () else .error (.slotType fragment type)
    | _ => .error (.slotType fragment type)
  | _ => .error (.argumentCount fragment)

def checkCondition (fragment : ConditionFragment) : Except Flaw Unit :=
  if ',' ∈ fragment.right then .error (.operandCount fragment.chars) else .ok ()

def checkFragments (s : List Char) : Except Flaw Unit := do
  (assignments s.length s).forM checkAssignment
  (conditions s.length s).forM checkCondition

/-- The last check before a script is sent: its sections, its brackets, and the shape of assignments
and conditions from the setup section on. It is weaker than reading the script. -/
def checkChars (s : List Char) : Except Flaw Unit := do
  if s.isEmpty then throw .empty
  match Text.strip? "|I|" s, Text.seek? "|S|" s, Text.seek? "|L|" s with
  | some _, some setup, some loop =>
    if setup.length ≤ loop.length then throw .sections
    if s.getLast? ≠ some '|' then throw .noFinalBar
    checkBalanced s
    checkFragments (withoutQuoted setup)
  | _, _, _ => throw .sections

def check (script : String) : Except Flaw Unit := checkChars script.toList

end RobotScript.Script
