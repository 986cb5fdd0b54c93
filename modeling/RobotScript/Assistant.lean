import RobotScript.Description.Basic
import RobotScript.Description.Compiling
import RobotScript.Request.Keywords
import RobotScript.Service.Reply

namespace RobotScript

/-- What was repaired, dropped or skipped on the way to a response. -/
inductive Notice
  | unavailable (reason : String)
  | repaired (warning : Description.Warning)
  | fromService (text : String)
  | emptyProgram
  | usedKeywords
  | checkFailed (flaw : Script.Flaw)
  | noMessage
  | noProgram

def Notice.message : Notice → String
  | .unavailable reason => "AI service unavailable: " ++ reason
  | .repaired warning => warning.message
  | .fromService text => text
  | .emptyProgram => "AI returned an empty program."
  | .usedKeywords => "Used deterministic local translator for this request."
  | .checkFailed flaw => "Validation failed: " ++ flaw.message
  | .noMessage => "Request message is required."
  | .noProgram => "Could not generate program automatically."

/-- The answer to a request: a checked script, and whether it is the one that is always safe. -/
structure Response where
  program : Program
  script : String
  explanation : String
  notices : List Notice
  fallback : Bool

namespace Response

/-- The empty program, with the reason for it last. -/
def safe (notices : List Notice) (reason : Notice) : Response where
  program := .empty
  script := fallbackScript
  explanation := "Using safe fallback program."
  notices := notices ++ [reason]
  fallback := true

/-- A program as a response, if its script passes the check. -/
def ofProgram (program : Program) (explanation : String) (notices : List Notice) :
    Except (List Notice) Response :=
  let script := program.render
  match Script.check script with
  | .ok () => .ok ⟨program, script, explanation, notices, false⟩
  | .error flaw => .error (notices ++ [.checkFailed flaw])

def toJson (response : Response) : Json :=
  .object [("program", response.program.toJson), ("script", .string response.script),
    ("explanation", .string response.explanation),
    ("warnings", .array (response.notices.map fun notice => .string notice.message)),
    ("fallback", .bool response.fallback)]

end Response

/-- Turns requests into scripts: with a service if there is one, else with the reason why there is
none, and by keywords where the service gives nothing and they are allowed. -/
structure Assistant where
  service : Option (String → Except Service.Failure Service.Reply)
  keywords : Bool
  note : Option String := none

namespace Assistant

/-- The answer where no service helped. -/
def withoutService (a : Assistant) (message : String) (notices : List Notice) : Response :=
  match if a.keywords then Request.answer? message else none with
  | none => .safe notices .noProgram
  | some answer =>
    match Response.ofProgram answer.program answer.explanation (notices ++ [.usedKeywords]) with
    | .ok response => response
    | .error notices => .safe notices .noProgram

/-- The answer to a reply of the service. -/
def ofReply (a : Assistant) (message : String) (reply : Service.Reply) : Response :=
  let cleaned := Description.clean reply.program
  let notices := cleaned.warnings.map .repaired ++ reply.warnings.map .fromService
  if cleaned.value.isEmpty then a.withoutService message (notices ++ [.emptyProgram])
  else
    let explanation := reply.explanation.getD "Program generated successfully."
    match Response.ofProgram cleaned.value explanation notices with
    | .ok response => response
    | .error notices => a.withoutService message notices

/-- The message of a request, without blanks around it; a blank request has none. -/
def message? (request : String) : Option String :=
  let message := Text.trim request.toList
  if message.isEmpty then none else some (String.ofList message)

/-- Answers a request; there is an answer to every one. -/
def respond (a : Assistant) (request : String) : Response :=
  match message? request with
  | none => .safe [] .noMessage
  | some message => match a.service with
    | none =>
      a.withoutService message [.unavailable (a.note.getD "no reasoning service configured.")]
    | some ask => match ask message with
      | .error failure => a.withoutService message [.unavailable failure.message]
      | .ok reply => a.ofReply message reply

end Assistant

end RobotScript
