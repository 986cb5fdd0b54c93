import RobotScript.Json.Decode

namespace RobotScript.Block

/-- A block to be placed, with the blocks inside it: one for each value input, and a chain for each
statement input. -/
inductive Descriptor
  | mk (kind : String) (fields : Dictionary String) (inputs : Ascending Descriptor none)
      (statements : Ascending (List Descriptor) none)
  deriving BEq

namespace Descriptor

def kind : Descriptor → String
  | .mk kind _ _ _ => kind

def fields : Descriptor → Dictionary String
  | .mk _ fields _ _ => fields

def inputs : Descriptor → Dictionary Descriptor
  | .mk _ _ inputs _ => inputs

def statements : Descriptor → Dictionary (List Descriptor)
  | .mk _ _ _ statements => statements

/-- A block with nothing in it. -/
def new (kind : String) : Descriptor := .mk kind .nil .nil .nil

def withField (d : Descriptor) (name value : String) : Descriptor :=
  .mk d.kind (Dictionary.insert name value d.fields) d.inputs d.statements

def withInput (d : Descriptor) (name : String) (child : Descriptor) : Descriptor :=
  .mk d.kind d.fields (Dictionary.insert name child d.inputs) d.statements

/-- An empty chain is not recorded. -/
def withStatement (d : Descriptor) (name : String) (chain : List Descriptor) : Descriptor :=
  if chain.isEmpty then d
  else .mk d.kind d.fields d.inputs (Dictionary.insert name chain d.statements)

/-- The field of an object for a part that is left out where it is empty. -/
def part (key : String) (fields : JsonFields) : JsonFields :=
  if fields.isEmpty then [] else [(key, .object fields)]

mutual

def toJson : Descriptor → Json
  | .mk kind fields inputs statements =>
    .object (("type", .string kind) ::
      part "fields" (fields.map Json.string).toList ++
      part "inputs" (inputsToJson inputs) ++ part "statements" (statementsToJson statements))

def inputsToJson {bound : Option String} : Ascending Descriptor bound → JsonFields
  | .nil => []
  | .cons name _ child inputs => (name, toJson child) :: inputsToJson inputs

def chainToJson : List Descriptor → List Json
  | [] => []
  | block :: chain => toJson block :: chainToJson chain

def statementsToJson {bound : Option String} : Ascending (List Descriptor) bound → JsonFields
  | .nil => []
  | .cons name _ chain statements => (name, .array (chainToJson chain)) :: statementsToJson statements

end

/-- Reads a descriptor with at most `levels` descriptors inside one another. -/
def decodeUpTo : Nat → JsonDecoder Descriptor
  | 0 => fun _ _ => none
  | levels + 1 => fun text depth => do
    match ← JsonDecoder.record ["type", "fields", "inputs", "statements"] text depth with
    | ([kind, fields, inputs, statements], depth) =>
      let kind ← kind.required JsonDecoder.text depth
      let fields ← fields.withDefault .nil (JsonDecoder.dictionary JsonDecoder.text) depth
      let inputs ← inputs.withDefault .nil (JsonDecoder.dictionary (decodeUpTo levels)) depth
      let statements ←
        statements.withDefault .nil (JsonDecoder.dictionary (JsonDecoder.list (decodeUpTo levels))) depth
      return .mk kind fields inputs statements
    | _ => none

/-- Every descriptor inside another nests deeper in the text, so the depth bounds the levels too. -/
def decode : JsonDecoder Descriptor := fun text depth => decodeUpTo depth text depth

end Descriptor

end RobotScript.Block
