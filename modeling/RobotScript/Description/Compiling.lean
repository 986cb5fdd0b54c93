import RobotScript.Description.Cleaning
import RobotScript.Script.Check

namespace RobotScript.Description

/-- A description brought to the form in which it is sent. -/
structure Compiled where
  program : Program
  script : String
  warnings : List Warning

/-- Cleans a description, writes its script and checks that. -/
def compile (raw : Json) : Except Script.Flaw Compiled := do
  let cleaned := clean raw
  let script := cleaned.value.render
  Script.check script
  return ⟨cleaned.value, script, cleaned.warnings⟩

end RobotScript.Description
