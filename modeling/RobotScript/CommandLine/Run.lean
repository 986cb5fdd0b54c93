import RobotScript.Block.Placement
import RobotScript.CommandLine.Arguments
import RobotScript.Config

namespace RobotScript.CommandLine

def version : String := "0.1.0"

/-- How a run ends: its exit code, and what it writes on both channels. -/
structure Outcome where
  code : Nat
  output : String
  messages : String

/-- What a run may look at: variables, files, and the service. -/
structure Surroundings where
  environment : String → Option String
  entry : String → Entry
  carry : Service.Call → Except Service.Failure Service.Response

namespace Outcome

def lines (list : List String) : String := String.join (list.map (· ++ "\n"))

def done (output messages : List String) : Outcome := ⟨0, lines output, lines messages⟩

def failed (message : String) : Outcome := ⟨1, "", "Error: " ++ message ++ "\n"⟩

def ofExcept : Except String Outcome → Outcome
  | .ok outcome => outcome
  | .error message => failed message

end Outcome

def usageLines : List String :=
  ["Compile robot programs to the EMMI wire protocol", "",
    "Usage: emmi [OPTIONS] <COMMAND>", "",
    "Commands:",
    "  compile    Compile a JSON program description",
    "  translate  Translate a free-text request into a script",
    "  validate   Check a wire script",
    "  parse      Read a wire script back into a program description",
    "  blocks     Map a script or token stream onto blocks",
    "  help       Print this message or the help of the given subcommand(s)", "",
    "Options:",
    "      --json     Print full JSON output instead of just the script",
    "  -h, --help     Print help",
    "  -V, --version  Print version"]

def warningLine (message : String) : String := "warning: " ++ message

/-- A description is given by itself where it starts with a brace, else by the path of its file. -/
def readDescription (entry : String → Entry) (input : String) : Except String Json := do
  let text ←
    if (input.toList.dropWhile Text.isBlank).head? = some '{' then pure input
    else match entry input with
      | .missing => throw ("No such description file: " ++ Text.escaped input)
      | .unreadable => throw ("Failed to read " ++ Text.escaped input)
      | .file text => pure text
  match Json.read? text.toList with
  | some raw => return raw
  | none => throw "Description is not valid JSON"

def runCompile (entry : String → Entry) (input : String) (json : Bool) : Except String Outcome := do
  let raw ← readDescription entry input
  let compiled ← (Description.compile raw).mapError fun _ => "Compiled script failed validation"
  let warnings := compiled.warnings.map (·.message)
  if json then
    let all := Json.object [("program", compiled.program.toJson), ("script", .string compiled.script),
      ("warnings", .array (warnings.map .string))]
    return .done [all.sortKeys.pretty] []
  else return .done [compiled.script] (warnings.map warningLine)

def runRespond (around : Surroundings) (message : String) (path : Option String) (offline json : Bool) :
    Except String Outcome := do
  let config ← match path with
    | some path => (Config.load around.environment around.entry path).mapError FileError.message
    | none => pure (Config.ofVariables around.environment)
  let config := { config with offline := config.offline || offline }
  let response := (config.assistant around.carry).respond message
  if json then return .done [response.toJson.pretty] []
  else
    return .done [response.script]
      (response.explanation :: response.notices.map fun notice => warningLine notice.message)

def runCheck (script : String) : Except String Outcome := do
  (Script.check script).mapError Script.Flaw.message
  return .done ["OK"] []

def runRead (script : String) : Except String Outcome := do
  let program ← (Script.parse script).mapError Script.Refusal.message
  return .done [program.toJson.sortKeys.pretty] []

/-- A block on a line: its number, its kind and its fields. -/
def blockLine (block : Block.PlacedBlock) : String :=
  let fields := block.fields.toList.map fun (name, value) => Text.escaped name ++ ": " ++ Text.escaped value
  "#" ++ toString block.id ++ " " ++ block.kind ++ " \x7b" ++ ", ".intercalate fields ++ "\x7d"

def runBlocks (entry : String → Entry) (input : String) (path : Option String) (json : Bool) :
    Except String Outcome := do
  let map ← match path with
    | some path => (Block.BlockMap.ofFile entry path).mapError FileError.message
    | none => pure Block.BlockMap.builtin
  let (result, workspace) := map.placeScript ({} : Block.Workspace) input
  let report ← result.mapError Script.Refusal.message
  if json then
    let all := Json.object [("report", report.toJson),
      ("blocks", .array (workspace.blocks.map (·.toJson)))]
    return .done [all.sortKeys.pretty] []
  else
    let total := "Instantiated " ++ toString report.placed ++ " blocks"
    return .done (workspace.blocks.map blockLine ++ [total])
      (report.warnings.map fun warning => warningLine warning.message)

/-- The file that a command reads. -/
def Command.file? : Command → Option String
  | .compile input => some input
  | .respond _ config _ => config
  | .blocks _ map => map
  | _ => none

def Command.run (around : Surroundings) (json : Bool) : Command → Except String Outcome
  | .compile input => runCompile around.entry input json
  | .respond message config offline => runRespond around message config offline json
  | .check script => runCheck script
  | .read script => runRead script
  | .blocks input map => runBlocks around.entry input map json

def Stop.outcome : Stop → Outcome
  | .usage => { Outcome.done [] usageLines with code := 2 }
  | .help => .done usageLines []
  | .version => .done ["emmi " ++ CommandLine.version] []

def run (around : Surroundings) (words : List String) : Outcome :=
  match readArguments false words with
  | .error stop => stop.outcome
  | .ok (command, json) => .ofExcept (command.run around json)

end RobotScript.CommandLine
