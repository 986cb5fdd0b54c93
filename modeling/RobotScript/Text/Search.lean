namespace RobotScript.Text

/-- What follows a literal at the front of a text. -/
def strip? (literal : String) (s : List Char) : Option (List Char) := literal.toList.isPrefixOf? s

/-- All from the first place where a literal, which is not empty, stands. -/
def seek? (literal : String) : List Char → Option (List Char)
  | [] => none
  | c :: s => if (strip? literal (c :: s)).isSome then some (c :: s) else seek? literal s

/-- Puts other characters in the place of every `c`. -/
def replace (c : Char) (substitute s : List Char) : List Char := s.flatMap fun d => if d == c then substitute else [d]

def mentions (s : List Char) (word : String) : Bool := (seek? word s).isSome

end RobotScript.Text
