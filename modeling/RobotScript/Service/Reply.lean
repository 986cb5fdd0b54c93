import RobotScript.Json.Printer

namespace RobotScript.Service

/-- What the service answers: a description, and what it says about it. -/
structure Reply where
  program : Json
  explanation : Option String
  warnings : List String

/-- Why there is no reply. -/
inductive Failure
  | notConfigured (reason : String)
  | http (detail : String)
  | status (code : Nat) (body : String)
  | emptyCompletion
  | invalidJson

def Failure.message : Failure → String
  | .notConfigured reason => reason
  | .http detail => "request failed: " ++ detail
  | .status code body => "service returned " ++ toString code ++ ": " ++ body
  | .emptyCompletion => "completion payload missing response text"
  | .invalidJson => "AI returned invalid JSON"

namespace Reply

/-- A warning that is no text is shown as JSON. -/
def warningText : Json → String
  | .string s => s
  | other => other.compact

/-- The parts of a payload. The program is its field `program` if that is an object, else all of it. -/
def ofPayload (payload : Json) : Reply :=
  let get (key : String) := payload.fields?.bind (·.get? key)
  { program := match get "program" with
      | some (.object fields) => .object fields
      | _ => payload
    explanation := (get "explanation").bind Json.text?
    warnings := (((get "warnings").bind Json.items?).getD []).map warningText }

/-- The reply in the text of a completion. -/
def ofText (s : String) : Except Failure Reply :=
  match Json.extract? s.toList with
  | some payload => .ok (ofPayload payload)
  | none => .error .invalidJson

end Reply

end RobotScript.Service
