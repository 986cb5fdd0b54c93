import RobotScript.Service.Address
import RobotScript.Service.Prompt
import RobotScript.Service.Reply
import RobotScript.Service.Settings

namespace RobotScript.Service

/-- What is sent to the service. -/
structure Call where
  url : String
  headers : List (String × String)
  body : Json

/-- What comes back: a status code and a text. -/
structure Response where
  status : Nat
  body : String

/-- A header value holds no control character but the tab. -/
def isHeaderText (s : String) : Bool :=
  s.toList.all fun c => c == '\t' || (0x20 ≤ c.toNat && c.toNat ≠ 0x7F)

def header (name value : String) : Except Failure (String × String) :=
  if isHeaderText value then .ok (name, value)
  else .error (.notConfigured "invalid header value: failed to parse header value")

/-- Without a key nothing is sent. -/
def missingKey (settings : Settings) : Failure :=
  .notConfigured (settings.provider.keyVariable ++ " is not configured.")

def headers (settings : Settings) (key : String) : Except Failure (List (String × String)) := do
  let optional (name : String) (value : Option String) : Except Failure (List (String × String)) :=
    match value with
    | some value => return [← header name value]
    | none => return []
  let key ← header "authorization" ("Bearer " ++ key)
  let site ← optional "http-referer" settings.siteUrl
  let app ← optional "x-title" settings.appName
  return ("content-type", "application/json") :: key :: site ++ app

/-- The request for a program: the prompt, and the message as JSON. -/
def body (settings : Settings) (message : String) : Json :=
  let say (role content : String) : Json :=
    .object [("role", .string role), ("content", .string content)]
  let user := (Json.object [("message", .string message)]).compact
  .object ([("model", .string settings.model), ("temperature", settings.temperatureJson),
    ("messages", .array [say "system" systemPrompt, say "user" user])] ++
    (settings.maxTokens.map fun n => ("max_tokens", Json.ofInt n.toNat)).toList)

def call (settings : Settings) (message : String) : Except Failure Call :=
  match settings.apiKey with
  | none => .error (missingKey settings)
  | some key => do
    let headers ← headers settings key
    return { url := settings.url, headers, body := body settings message }

/-- What it means that a call does not get through. -/
def unreachable (call : Call) : Failure :=
  match Address.read? call.url with
  | some address => .http ("error sending request for url (" ++ address.text ++ ")")
  | none => .http "builder error"

/-- The text of one choice of a completion: its message, or else its plain text. -/
def decodeChoice : JsonDecoder (Option String) := fun text depth => do
  match ← JsonDecoder.record ["message", "text"] text depth with
  | ([message, text], depth) =>
    let message ← message.optional (fun value depth => do
      match ← JsonDecoder.record ["role", "content"] value depth with
      | ([role, content], depth) =>
        let _ ← role.withDefault none (JsonDecoder.optional JsonDecoder.text) depth
        content.withDefault none (JsonDecoder.optional JsonDecoder.text) depth
      | _ => none) depth
    let text ← text.withDefault none (JsonDecoder.optional JsonDecoder.text) depth
    return (message.getD none).or text
  | _ => none

/-- The texts of the choices of a completion. -/
def decodeCompletion : JsonDecoder (List (Option String)) := fun text depth => do
  match ← JsonDecoder.record ["choices"] text depth with
  | ([choices], depth) => choices.required (JsonDecoder.list decodeChoice) depth
  | _ => none

/-- The first text that is not blank. -/
def completionText? (choices : List (Option String)) : Option String :=
  choices.findSome? fun text => text.filter fun s => !(Text.trim s.toList).isEmpty

/-- What a response says. Any status from 200 to 299 is a success. -/
def reply (response : Response) : Except Failure Reply :=
  if 200 ≤ response.status ∧ response.status < 300 then
    match decodeCompletion.read? response.body with
    | none => .error (.http "error decoding response body")
    | some choices => match completionText? choices with
      | none => .error .emptyCompletion
      | some text => Reply.ofText text
  else .error (.status response.status response.body)

end RobotScript.Service
