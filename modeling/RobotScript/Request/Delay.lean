import RobotScript.Number.Numeral
import RobotScript.Text.Blank
import RobotScript.Text.DecimalDigit

namespace RobotScript.Request

def minDelay : Nat := 20

def maxDelay : Nat := 10000

/-- The delay of a request that names none. -/
def defaultDelay : Nat := 500

/-- A letter in either case; the long s is one form of the letter. -/
def isLetter (letter c : Char) : Bool :=
  c == letter || c == letter.toUpper || (letter == 's' && c == '\u017f')

/-- The text begins with the word, in letters of either case. -/
def startsWith : List Char → List Char → Bool
  | [], _ => true
  | _, [] => false
  | letter :: word, c :: s => isLetter letter c && startsWith word s

/-- The name of a unit can be cut short, so its longer spellings need no test. -/
def isMilliseconds (s : List Char) : Bool :=
  startsWith "ms".toList s || startsWith "millisecond".toList s

def isSeconds (s : List Char) : Bool := startsWith ['s'] s

/-- The first run of `least` digits or more that has a unit behind it, blanks between them allowed.
Of a long run the last `most` digits count. `run` is the run that ends where the text begins. -/
def quantityAfter (least most : Nat) (isUnit : List Char → Bool) (run : List Char) :
    List Char → Option (List Char)
  | [] => none
  | c :: s =>
    if Text.isDecimalDigit c then quantityAfter least most isUnit (run ++ [c]) s
    else if least ≤ run.length && isUnit ((c :: s).dropWhile Text.isBlank) then
      some (run.drop (run.length - most))
    else quantityAfter least most isUnit [] s

def quantity? (least most : Nat) (isUnit : List Char → Bool) (s : List Char) : Option (List Char) :=
  quantityAfter least most isUnit [] s

/-- The milliseconds that a request names. Digits of another script are seen but not read. -/
def namedDelay? (s : List Char) : Option Nat :=
  match quantity? 2 5 isMilliseconds s with
  | some run => readDigits? run
  | none => ((quantity? 1 3 isSeconds s).bind readDigits?).map (· * 1000)

/-- The delay that a request asks for, within bounds. -/
def delay (s : List Char) : Nat :=
  match namedDelay? s with
  | some ms => max minDelay (min maxDelay ms)
  | none => defaultDelay

end RobotScript.Request
