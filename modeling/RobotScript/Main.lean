import RobotScript.CommandLine.Run

namespace RobotScript.CommandLine

/-- Looks a path up on disk. -/
def lookUp (path : String) : IO Entry := do
  match ← (IO.FS.readFile path).toBaseIO with
  | .ok text => return .file text
  | .error (.noFileOrDirectory ..) => return .missing
  | .error _ => return .unreadable

/-- What the arguments can refer to. There is no network here, so no call gets through. -/
def surroundings (words : List String) : IO Surroundings := do
  let environment ← Service.Settings.variableNames.filterMapM fun name =>
    return (← IO.getEnv name).map (name, ·)
  let file? := match readArguments false words with
    | .ok (command, _) => command.file?
    | .error _ => none
  let entries ← match file? with
    | some path => pure [(path, ← lookUp path)]
    | none => pure []
  return {
    environment := fun name => environment.lookup name
    entry := fun path => (entries.lookup path).getD .missing
    carry := fun call => .error (Service.unreachable call) }

end RobotScript.CommandLine

open RobotScript in
def main (words : List String) : IO UInt32 := do
  let outcome := CommandLine.run (← CommandLine.surroundings words) words
  IO.print outcome.output
  IO.eprint outcome.messages
  return UInt32.ofNat outcome.code
