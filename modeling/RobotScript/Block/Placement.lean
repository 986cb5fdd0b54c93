import RobotScript.Block.Lowering
import RobotScript.Block.Workspace
import RobotScript.Script.Reader

namespace RobotScript.Block

/-- What could not be placed. -/
inductive Warning
  | unmapped (token : String)
  | refused (error : PlaceError)
  | noBase (kind : String) (error : PlaceError)

def Warning.message : Warning → String
  | .unmapped token => "Command \"" ++ token ++ "\" is not mapped to a block."
  | .refused error => error.message
  | .noBase kind error => "Base block type not found: " ++ kind ++ " (" ++ error.message ++ ")"

/-- What blocks are placed in, while they are put into it. -/
structure Placement (σ : Type) where
  host : σ
  placed : Nat
  warnings : List Warning

/-- What a mapping did: the root block if there is one, the number of the other blocks, and all that
could not be placed. -/
structure MapReport where
  base : Option Nat
  placed : Nat
  warnings : List Warning

def MapReport.toJson (report : MapReport) : Json :=
  .object [("base", (report.base.map fun id => Json.ofInt id).getD .null),
    ("instantiated", .ofInt report.placed),
    ("warnings", .array (report.warnings.map fun warning => .string warning.message))]

variable {σ : Type} [Host σ]

namespace Placement

def start (host : σ) (unmapped : List String) : Placement σ := ⟨host, 0, unmapped.map .unmapped⟩

mutual

/-- Places a block and all inside it. A block that is refused takes with it what is inside. -/
def put (p : Placement σ) (attach : Attachment) : Descriptor → Option Nat × Placement σ
  | .mk kind fields inputs statements =>
    match Host.instantiate p.host ⟨kind, fields, attach⟩ with
    | (.error error, host) => (none, { p with host, warnings := p.warnings ++ [.refused error] })
    | (.ok id, host) =>
      let p := { p with host, placed := p.placed + 1 }
      (some id, putStatements (putInputs p id inputs) id statements)

/-- Places a chain: a block stands behind the last one that was placed, and the first at `head`. -/
def putChain (p : Placement σ) (head : Attachment) : List Descriptor → Placement σ
  | [] => p
  | block :: chain =>
    let (id?, p) := put p head block
    putChain p ((id?.map .next).getD head) chain

def putInputs (p : Placement σ) (parent : Nat) {bound : Option String} : Ascending Descriptor bound → Placement σ
  | .nil => p
  | .cons name _ child inputs => putInputs (put p (.input parent name) child).2 parent inputs

def putStatements (p : Placement σ) (parent : Nat) {bound : Option String} :
    Ascending (List Descriptor) bound → Placement σ
  | .nil => p
  | .cons name _ chain statements =>
    putStatements (putChain p (.statement parent name) chain) parent statements

end

def finish (p : Placement σ) (base : Option Nat) : MapReport × σ := (⟨base, p.placed, p.warnings⟩, p.host)

end Placement

namespace BlockMap

/-- Places a program under a new root block. -/
def placeProgram (map : BlockMap) (host : σ) (program : Program) : MapReport × σ :=
  let lowered := map.lowerProgram program
  let p := Placement.start host lowered.unmapped
  match Host.instantiate p.host ⟨map.base.kind, .nil, .root⟩ with
  | (.error error, host) =>
    Placement.finish { p with host, warnings := p.warnings ++ [.noBase map.base.kind error] } none
  | (.ok base, host) =>
    let p := { p with host }
    let p := p.putChain (.statement base map.base.setupInput) lowered.setup
    let p := p.putChain (.statement base map.base.loopInput) lowered.loop
    p.finish (some base)

/-- Places lowered blocks as a chain of their own. -/
def placeChain (host : σ) (lowered : Lowered) : MapReport × σ :=
  ((Placement.start host lowered.unmapped).putChain .root lowered.blocks).finish none

/-- Places the blocks of one command. -/
def placeCommand (map : BlockMap) (host : σ) (token : String) : MapReport × σ :=
  placeChain host (map.lowerCommand (String.ofList (Text.trim token.toList)))

/-- Places a whole script under a root block, or a bare token list as a chain of its own. -/
def placeScript (map : BlockMap) (host : σ) (text : String) : Except Script.Refusal MapReport × σ :=
  let script := Text.trim text.toList
  if (Text.strip? "|I|" script).isSome then
    match Script.parse (String.ofList script) with
    | .error refusal => (.error refusal, host)
    | .ok program =>
      let (report, host) := map.placeProgram host program
      (.ok report, host)
  else
    match Script.parseTokens (String.ofList script) with
    | .error refusal => (.error refusal, host)
    | .ok nodes =>
      let (report, host) := placeChain host (map.lowerAll nodes)
      (.ok report, host)

end BlockMap

end RobotScript.Block
