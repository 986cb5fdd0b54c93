import RobotScript.Program.Basic
import RobotScript.Text.Search

namespace RobotScript

namespace Quoted

def isQuote (c : Char) : Bool := c == '"' || c == '\''

/-- Splits behind the quote that closes a literal. A backslash takes the next character with it. -/
def close? (quote : Char) : List Char → Option (List Char × List Char)
  | [] => none
  | '\\' :: c :: s => (close? quote s).map fun (inner, rest) => ('\\' :: c :: inner, rest)
  | c :: s =>
    if c == quote then some ([c], s)
    else (close? quote s).map fun (inner, rest) => (c :: inner, rest)

/-- Splits off the quoted literal at the front, with both its quotes. -/
def split? : List Char → Option (List Char × List Char)
  | [] => none
  | c :: s =>
    if isQuote c then (close? c s).map fun (inner, rest) => (c :: inner, rest) else none

/-- The text is one quoted literal and nothing else. -/
def isWhole (s : List Char) : Bool :=
  match split? s with
  | some (_, []) => true
  | _ => false

/-- As `close?`, on the bytes of UTF-8: the number of bytes up to the closing quote, added to
`count`. A backslash takes one byte with it, and the bytes of a long character never look like a quote
or a backslash. -/
def closeBytes? (quote : UInt8) : Nat → List UInt8 → Option Nat
  | _, [] => none
  | count, 0x5C :: _ :: s => closeBytes? quote (count + 2) s
  | count, b :: s => if b == quote then some (count + 1) else closeBytes? quote (count + 1) s

/-- The number of bytes of the quoted literal at the front. -/
def scanBytes? : List UInt8 → Option Nat
  | [] => none
  | b :: s => if b == 0x22 || b == 0x27 then closeBytes? b 1 s else none

def scan? (s : String) : Option Nat := scanBytes? s.toUTF8.toList

/-- Doubles each backslash, and then puts one in front of each double quote. -/
def encode (s : List Char) : List Char := Text.replace '"' ['\\', '"'] (Text.replace '\\' ['\\', '\\'] s)

/-- Drops each backslash and keeps what it stands before. -/
def decode : List Char → List Char
  | [] => []
  | '\\' :: c :: s => c :: decode s
  | c :: s => if c == '\\' then decode s else c :: decode s

end Quoted

def isDigitRun (s : List Char) : Bool := !s.isEmpty && s.all isDigit

/-- An optional minus, digits, and an optional point with more digits. -/
def isNumeric (s : List Char) : Bool :=
  let magnitude := match s with
    | '-' :: t => t
    | t => t
  match magnitude.dropWhile (· != '.') with
  | [] => isDigitRun magnitude
  | _ :: fraction => isDigitRun (magnitude.takeWhile (· != '.')) && isDigitRun fraction

/-- A text in a script: itself where it reads as a number, a symbol or a quoted literal, else between
quotes. -/
def textLiteral (s : List Char) : List Char :=
  let token := Text.trim s
  if token.isEmpty then ['"', '"']
  else if isNumeric token || (Symbol.ofChars? token).isSome || Quoted.isWhole token then token
  else '"' :: Quoted.encode token ++ ['"']

end RobotScript
