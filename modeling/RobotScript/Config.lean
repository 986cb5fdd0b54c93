import RobotScript.Assistant
import RobotScript.Block.Map
import RobotScript.Folder
import RobotScript.Service.Exchange
import RobotScript.Text.Escaped

namespace RobotScript

/-- How requests are answered. -/
structure Config where
  service : Service.Settings
  offline : Bool
  keywords : Bool
  blockMap : Option String

/-- Why a file could not be used. -/
inductive FileError
  | readConfig (path : String)
  | decodeConfig
  | readBlockMap (path : String)
  | decodeBlockMap
  | write (error : Folder.WriteError)

def FileError.message : FileError → String
  | .readConfig path => "Failed to read config: " ++ Text.escaped path
  | .decodeConfig => "Failed to deserialize config"
  | .readBlockMap path => "Failed to read block map: " ++ Text.escaped path
  | .decodeBlockMap => "Failed to deserialize block map"
  | .write (.create temporary) => "Failed to create temp file: " ++ Text.escaped temporary
  | .write (.rename temporary path) =>
    "Failed to rename " ++ Text.escaped temporary ++ " to " ++ Text.escaped path

def Block.BlockMap.ofFile (entry : String → Entry) (path : String) :
    Except FileError Block.BlockMap :=
  match (entry path).text? with
  | none => .error (.readBlockMap path)
  | some text => match Block.BlockMap.read? text with
    | none => .error .decodeBlockMap
    | some map => .ok map

namespace Config

/-- What holds without a file. -/
def ofVariables (environment : String → Option String) : Config where
  service := .ofVariables environment
  offline := false
  keywords := true
  blockMap := none

def keys : List String := ["reasoner", "offline", "heuristic_fallback", "block_map"]

/-- A configuration in which a field that is missing is the one of `default`. -/
def decode (default : Config) : JsonDecoder Config := fun text depth => do
  match ← JsonDecoder.record keys text depth with
  | ([service, offline, keywords, blockMap], depth) =>
    return {
      service := ← service.withDefault default.service (Service.Settings.decode default.service) depth
      offline := ← offline.withDefault default.offline JsonDecoder.bool depth
      keywords := ← keywords.withDefault default.keywords JsonDecoder.bool depth
      blockMap :=
        ← blockMap.withDefault default.blockMap (JsonDecoder.optional JsonDecoder.text) depth }
  | _ => none

/-- Loads a file; the variables stand in for what it leaves out. -/
def load (environment : String → Option String) (entry : String → Entry) (path : String) :
    Except FileError Config :=
  match (entry path).text? with
  | none => .error (.readConfig path)
  | some text => match (decode (ofVariables environment)).read? text with
    | none => .error .decodeConfig
    | some config => .ok config

def toText (config : Config) : JsonText :=
  let entry (key : String) (value : Json) := (JsonText.pieces key, JsonText.ofJson value)
  .object [(JsonText.pieces "reasoner", config.service.toText),
    entry "offline" (.bool config.offline), entry "heuristic_fallback" (.bool config.keywords),
    entry "block_map" (Json.ofText? config.blockMap)]

/-- The file of a configuration. -/
def fileText (config : Config) : String := String.ofList (config.toText.pretty 0)

def save (config : Config) (folder : Folder) (path : String) : Except FileError Unit × Folder :=
  let (result, folder) := folder.write path config.fileText
  (result.mapError .write, folder)

/-- The block map that the configuration names, or the built-in one. -/
def loadBlockMap (config : Config) (entry : String → Entry) : Except FileError Block.BlockMap :=
  match config.blockMap with
  | none => .ok .builtin
  | some path => Block.BlockMap.ofFile entry path

/-- The assistant of a configuration, given how a call is carried to the service. Without a key there is
no service, and the assistant says why. -/
def assistant (config : Config) (carry : Service.Call → Except Service.Failure Service.Response) :
    Assistant :=
  let alone (note : Option String) : Assistant := { service := none, keywords := config.keywords, note }
  if config.offline then alone none
  else if config.service.apiKey.isNone then alone (some (Service.missingKey config.service).message)
  else {
    service := some fun message => do
      let call ← Service.call config.service message
      let response ← carry call
      Service.reply response
    keywords := config.keywords }

end Config

end RobotScript
