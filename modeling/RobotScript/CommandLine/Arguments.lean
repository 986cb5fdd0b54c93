namespace RobotScript.CommandLine

/-- What the tool is asked to do. -/
inductive Command
  | compile (input : String)
  | respond (message : String) (config : Option String) (offline : Bool)
  | check (script : String)
  | read (script : String)
  | blocks (input : String) (map : Option String)

/-- Why no command is run. -/
inductive Stop
  | usage
  | help
  | version

/-- One argument by its form. -/
inductive Word
  | separator
  | long (name : String) (attached : Option String)
  | short (letter : Char) (attached : List Char)
  | plain (text : String)

/-- A single minus is plain text. -/
def Word.ofString (s : String) : Word :=
  match s.toList with
  | ['-', '-'] => .separator
  | '-' :: '-' :: rest =>
    let attached := match rest.dropWhile (· != '=') with
      | [] => none
      | _ :: value => some (String.ofList value)
    .long (String.ofList (rest.takeWhile (· != '='))) attached
  | '-' :: letter :: attached => .short letter attached
  | _ => .plain s

/-- What a command takes beside its input: flags, and one option with a value. -/
structure Form where
  flags : List String
  option : Option (Char × String)

/-- The arguments of a command as far as they are read. -/
structure Arguments where
  input : Option String := none
  flags : List String := []
  value : Option String := none

namespace Arguments

def withInput (a : Arguments) (s : String) : Except Stop Arguments :=
  if a.input.isSome then .error .usage else .ok { a with input := some s }

def withFlag (a : Arguments) (name : String) : Except Stop Arguments :=
  if name ∈ a.flags then .error .usage else .ok { a with flags := name :: a.flags }

/-- The value of an option is a path, so it is not empty. -/
def withValue (a : Arguments) (s : String) : Except Stop Arguments :=
  if a.value.isSome || s.isEmpty then .error .usage else .ok { a with value := some s }

/-- Reads the arguments of a command from the left; the first that does not fit decides. After a
separator all is input. -/
def readAll (form : Form) (a : Arguments) : List String → Except Stop Arguments
  | [] => .ok a
  | word :: words =>
    let value (attached : Option String) : Except Stop Arguments :=
      match attached, words with
      | some s, rest => do readAll form (← a.withValue s) rest
      | none, s :: rest => match Word.ofString s with
        | .plain s => do readAll form (← a.withValue s) rest
        | _ => .error .usage
      | none, [] => .error .usage
    match Word.ofString word with
    | .separator => words.foldlM withInput a
    | .plain s => do readAll form (← a.withInput s) words
    | .short letter attached =>
      if letter = 'h' then .error .help
      else if some letter = form.option.map (·.1) then
        match attached with
        | [] => value none
        | '=' :: s => value (some (String.ofList s))
        | s => value (some (String.ofList s))
      else .error .usage
    | .long name attached =>
      if some name = form.option.map (·.2) then value attached
      else if attached.isSome then .error .usage
      else if name = "help" then .error .help
      else if name ∈ form.flags then do readAll form (← a.withFlag name) words
      else .error .usage

end Arguments

def names : List String := ["compile", "translate", "validate", "parse", "blocks"]

/-- Reads the command of a name; `json` may also stand behind it. -/
def readCommand (name : String) (json : Bool) (words : List String) : Except Stop (Command × Bool) := do
  let form : Form := match name with
    | "translate" => ⟨["json", "offline"], some ('c', "config")⟩
    | "blocks" => ⟨["json"], some ('m', "map")⟩
    | _ => ⟨["json"], none⟩
  let arguments ← Arguments.readAll form {} words
  let input ← match arguments.input with
    | some s => pure s
    | none => throw .usage
  let command ← match name with
    | "compile" => pure (Command.compile input)
    | "translate" => pure (Command.respond input arguments.value ("offline" ∈ arguments.flags))
    | "validate" => pure (Command.check input)
    | "parse" => pure (Command.read input)
    | "blocks" => pure (Command.blocks input arguments.value)
    | _ => throw .usage
  return (command, json || "json" ∈ arguments.flags)

/-- Reads all arguments: a flag for JSON output, and a command. -/
def readArguments (json : Bool) : List String → Except Stop (Command × Bool)
  | [] => .error .usage
  | word :: words => match Word.ofString word with
    | .long "json" none => if json then .error .usage else readArguments true words
    | .long "help" none => .error .help
    | .long "version" none => .error .version
    | .short 'h' _ => .error .help
    | .short 'V' _ => .error .version
    | .plain name =>
      if name ∈ names then readCommand name json words
      else if name = "help" ∧ words.all (· ∈ names) then .error .help
      else .error .usage
    | _ => .error .usage

end RobotScript.CommandLine
