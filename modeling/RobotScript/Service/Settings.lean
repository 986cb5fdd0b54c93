import RobotScript.Json.Decode
import RobotScript.Json.Printer

namespace RobotScript.Service

/-- Whose conventions the service follows. -/
inductive Provider
  | openAi
  | openRouter
  deriving DecidableEq

namespace Provider

/-- Every name but one means the first provider. -/
def ofName (name : List Char) : Provider :=
  if (Text.trim name).map Char.toLower = "openrouter".toList then .openRouter else .openAi

/-- The name in a settings file. -/
def name : Provider → String
  | .openAi => "openai"
  | .openRouter => "openrouter"

/-- The variable that holds the key. -/
def keyVariable : Provider → String
  | .openAi => "OPENAI_API_KEY"
  | .openRouter => "OPENROUTER_API_KEY"

def endpointVariable : Provider → String
  | .openAi => "OPENAI_BASE_URL"
  | .openRouter => "OPENROUTER_BASE_URL"

def defaultEndpoint : Provider → String
  | .openAi => "https://api.openai.com/v1"
  | .openRouter => "https://openrouter.ai/api/v1"

def defaultModel : Provider → String
  | .openAi => "gpt-4.1-mini"
  | .openRouter => "openai/gpt-4.1-mini"

def ofFileName? (s : String) : Option Provider := [.openAi, .openRouter].find? (·.name == s)

/-- A name, or an object with null under the name. -/
def decode : JsonDecoder Provider
  | .string pieces, _ => (JsonPiece.text? pieces).bind ofFileName?
  | .object [(key, .null)], _ + 1 => (JsonPiece.text? key).bind ofFileName?
  | _, _ => none

end Provider

/-- How the service is reached and asked. -/
structure Settings where
  provider : Provider
  endpoint : String
  model : String
  apiKey : Option String
  temperature : Single
  maxTokens : Option UInt32
  timeoutSecs : UInt64
  siteUrl : Option String
  appName : Option String

namespace Settings

def ofProvider (provider : Provider) : Settings where
  provider := provider
  endpoint := provider.defaultEndpoint
  model := provider.defaultModel
  apiKey := none
  temperature := Decimal.toFloating .binary32 ⟨false, 2, -1⟩
  maxTokens := none
  timeoutSecs := 30
  siteUrl := none
  appName := none

def withoutSlash (s : String) : String := String.ofList (Text.dropEndWhile (· == '/') s.toList)

/-- The value of a variable without blanks around it; a blank value counts as unset. -/
def setting? (environment : String → Option String) (name : String) : Option String :=
  (environment name).bind fun value =>
    let value := Text.trim value.toList
    if value.isEmpty then none else some (String.ofList value)

/-- Every variable that settings depend on. -/
def variableNames : List String :=
  ["AI_PROVIDER", "AI_MODEL", "OPENAI_API_KEY", "OPENAI_BASE_URL", "OPENROUTER_API_KEY",
    "OPENROUTER_BASE_URL", "OPENROUTER_SITE_URL", "OPENROUTER_APP_NAME", "EMMI_AI_TEMPERATURE",
    "EMMI_AI_MAX_TOKENS", "EMMI_AI_TIMEOUT_SECS"]

/-- Settings from variables. A value that does not read as a number is passed over. -/
def ofVariables (environment : String → Option String) : Settings :=
  let get := setting? environment
  let provider := ((get "AI_PROVIDER").map fun name => Provider.ofName name.toList).getD .openAi
  let default := ofProvider provider
  { default with
    endpoint := ((get provider.endpointVariable).map withoutSlash).getD default.endpoint
    model := (get "AI_MODEL").getD default.model
    apiKey := get provider.keyVariable
    temperature :=
      ((get "EMMI_AI_TEMPERATURE").bind fun s => Floating.read? .binary32 s.toList).getD default.temperature
    maxTokens := (get "EMMI_AI_MAX_TOKENS").bind fun s => readUInt32? s.toList
    timeoutSecs :=
      ((get "EMMI_AI_TIMEOUT_SECS").bind fun s => readUInt64? s.toList).getD default.timeoutSecs
    siteUrl := if provider = .openRouter then get "OPENROUTER_SITE_URL" else none
    appName := if provider = .openRouter then get "OPENROUTER_APP_NAME" else none }

/-- The address that a request goes to. -/
def url (settings : Settings) : String := withoutSlash settings.endpoint ++ "/chat/completions"

/-- The temperature as a number in JSON. -/
def temperatureJson (settings : Settings) : Json :=
  Json.ofDouble (settings.temperature.convert .binary64)

/-- The settings without the key. -/
def toJson (settings : Settings) : Json :=
  .object [("provider", .string settings.provider.name), ("endpoint", .string settings.endpoint),
    ("model", .string settings.model), ("temperature", settings.temperatureJson),
    ("max_tokens", (settings.maxTokens.map fun n => Json.ofInt n.toNat).getD .null),
    ("timeout_secs", .ofInt settings.timeoutSecs.toNat), ("site_url", Json.ofText? settings.siteUrl),
    ("app_name", Json.ofText? settings.appName)]

/-- The settings as a file holds them: the temperature has the digits of its own format, and the key is
never written. -/
def toText (settings : Settings) : JsonText :=
  let temperature := match settings.temperature with
    | .finite x => JsonText.number (JsonNumeral.ofFloat .single x)
    | _ => .null
  let entry (key : String) (value : Json) := (JsonText.pieces key, JsonText.ofJson value)
  .object [entry "provider" (.string settings.provider.name),
    entry "endpoint" (.string settings.endpoint), entry "model" (.string settings.model),
    (JsonText.pieces "temperature", temperature),
    entry "max_tokens" ((settings.maxTokens.map fun n => Json.ofInt n.toNat).getD .null),
    entry "timeout_secs" (.ofInt settings.timeoutSecs.toNat),
    entry "site_url" (Json.ofText? settings.siteUrl), entry "app_name" (Json.ofText? settings.appName)]

def keys : List String :=
  ["provider", "endpoint", "model", "api_key", "temperature", "max_tokens", "timeout_secs", "site_url",
    "app_name"]

/-- Settings in which a field that is missing is the one of `default`. -/
def decode (default : Settings) : JsonDecoder Settings := fun text depth => do
  match ← JsonDecoder.record keys text depth with
  | ([provider, endpoint, model, apiKey, temperature, maxTokens, timeoutSecs, siteUrl, appName], depth) =>
    let optionalText := JsonDecoder.optional JsonDecoder.text
    let maxTokens ← maxTokens.withDefault (default.maxTokens.map (·.toNat))
      (JsonDecoder.optional (JsonDecoder.natBelow UInt32.size)) depth
    let timeoutSecs ← timeoutSecs.withDefault default.timeoutSecs.toNat
      (JsonDecoder.natBelow UInt64.size) depth
    return {
      provider := ← provider.withDefault default.provider Provider.decode depth
      endpoint := ← endpoint.withDefault default.endpoint JsonDecoder.text depth
      model := ← model.withDefault default.model JsonDecoder.text depth
      apiKey := ← apiKey.withDefault default.apiKey optionalText depth
      temperature := ← temperature.withDefault default.temperature JsonDecoder.single depth
      maxTokens := maxTokens.map UInt32.ofNat
      timeoutSecs := UInt64.ofNat timeoutSecs
      siteUrl := ← siteUrl.withDefault default.siteUrl optionalText depth
      appName := ← appName.withDefault default.appName optionalText depth }
  | _ => none

end Settings

end RobotScript.Service
