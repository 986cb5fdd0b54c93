import RobotScript.Program.Flags
import RobotScript.Request.Delay
import RobotScript.Text.Search

namespace RobotScript.Request

/-- A program for a request, and what it does in one line. -/
structure Answer where
  program : Program
  explanation : String

/-- Lower case, as far as letters of ASCII come out of it: two other characters have one in their
lower case. Keywords and units are told by those letters alone. -/
def lowerChar (c : Char) : List Char :=
  if c == '\u212a' then ['k']
  else if c == '\u0130' then ['i', '\u0307']
  else [c.toLower]

def lower (s : List Char) : List Char := s.flatMap lowerChar

/-- A program with the flags that it needs. -/
def programOf (setup loop : List Node) : Program := ⟨inferFlags setup loop, setup, loop⟩

/-- A touch moves the state `I1` through 0, 1 and 2, and each state has a colour. -/
def touchProgram (debounce : UInt32) : Program :=
  let state := Slot.clamped .int 1
  let lit (n : Int64) (token : String) : Value × List Node :=
    (.integer n, [.command "EAF", .command token])
  programOf [.assign state .set (.integer 0)] [
    .branch ⟨.eq, .symbol (.sensor .touch), .integer 1⟩ [
      .assign state .add (.integer 1),
      .branch ⟨.gt, .symbol (.slot state), .integer 2⟩ [.assign state .set (.integer 0)] [],
      .delay debounce] [],
    .select (.symbol (.slot state)) [lit 0 "EGN", lit 1 "ERN", lit 2 "EBN"] [.command "EAF"]]

def touchAnswer? (s : List Char) : Option Answer :=
  let has := Text.mentions s
  if (has "i1" || has "state") && has "touch" && has "green" && has "red" && has "blue" then
    some {
      program := touchProgram (if has "500" || has "debounce" then 500 else 300)
      explanation :=
        "Touch input cycles I1 through 0, 1, 2 with debounce, then drives LED color per state." }
  else none

/-- A colour of the eyes with the commands that switch it on and off. -/
structure Color where
  name : String
  on : String
  off : String

def color (s : List Char) : Color :=
  if Text.mentions s "green" then ⟨"green", "EGN", "EGF"⟩
  else if Text.mentions s "blue" then ⟨"blue", "EBN", "EBF"⟩
  else if Text.mentions s "all" then ⟨"all", "EAN", "EAF"⟩
  else ⟨"red", "ERN", "ERF"⟩

def blinkAnswer (color : Color) (ms : Nat) : Answer where
  program :=
    let pause := Node.delay (UInt32.ofNat ms)
    programOf [] [.command color.on, pause, .command color.off, pause]
  explanation := "Blinking " ++ color.name ++ " LED by toggling eyes on/off with a " ++ toString ms ++
    "ms delay."

def switchAnswer (color : Color) (off : Bool) : Answer where
  program := programOf [] [.command (if off then color.off else color.on)]
  explanation := "Setting " ++ color.name ++ " LED " ++ (if off then "off" else "on") ++ "."

def eyesAnswer? (s : List Char) : Option Answer :=
  let has := Text.mentions s
  if ["led", "eye", "rgb", "light"].any has then
    if ["blink", "flash", "toggle"].any has then some (blinkAnswer (color s) (delay s))
    else some (switchAnswer (color s) (has " off" || has "disable"))
  else none

/-- Answers the two families of requests that are known by their words, and no other. -/
def answer? (message : String) : Option Answer :=
  let s := lower message.toList
  match touchAnswer? s with
  | some answer => some answer
  | none => eyesAnswer? s

end RobotScript.Request
