import RobotScript.Block.Descriptor

namespace RobotScript.Block

/-- Where a block is connected: nowhere, to a value input, as the first of a statement input, or
behind another block. -/
inductive Attachment
  | root
  | input (parent : Nat) (name : String)
  | statement (parent : Nat) (name : String)
  | next (previous : Nat)
  deriving DecidableEq

/-- The block that an attachment refers to. -/
def Attachment.anchor? : Attachment → Option Nat
  | .root => none
  | .input parent _ => some parent
  | .statement parent _ => some parent
  | .next previous => some previous

def Attachment.toJson : Attachment → Json
  | .root => .object [("kind", .string "root")]
  | .input parent name =>
    .object [("kind", .string "input"), ("parent", .ofInt parent), ("name", .string name)]
  | .statement parent name =>
    .object [("kind", .string "statement"), ("parent", .ofInt parent), ("name", .string name)]
  | .next previous => .object [("kind", .string "next"), ("previous", .ofInt previous)]

structure PlacedBlock where
  id : Nat
  kind : String
  fields : Dictionary String
  attach : Attachment
  deriving DecidableEq

def PlacedBlock.toJson (block : PlacedBlock) : Json :=
  .object [("id", .ofInt block.id), ("kind", .string block.kind),
    ("fields", .object (block.fields.map Json.string).toList),
    ("attach", block.attach.toJson)]

/-- Why a block is not taken. -/
inductive PlaceError
  | unknownKind (kind : String)
  | unknownBlock (id : Nat)
  | rejected (kind detail : String)

def PlaceError.message : PlaceError → String
  | .unknownKind kind => "Missing block type: " ++ kind
  | .unknownBlock id => "Block #" ++ toString id ++ " not found in workspace"
  | .rejected kind detail => "Block " ++ kind ++ " rejected: " ++ detail

/-- A block that is asked for. -/
structure Request where
  kind : String
  fields : Dictionary String
  attach : Attachment

/-- What blocks are placed in. It is asked for one block at a time, and answers with the number of the block or with
the reason why there is none. -/
class Host (σ : Type) where
  instantiate : σ → Request → Except PlaceError Nat × σ

/-- Blocks in the order in which they were placed. With `known` kinds no other kind is taken. -/
structure Workspace where
  known : Option (List String) := none
  blocks : List PlacedBlock := []

namespace Workspace

def size (w : Workspace) : Nat := w.blocks.length

def block? (w : Workspace) (id : Nat) : Option PlacedBlock := w.blocks[id]?

def knows (w : Workspace) (kind : String) : Bool :=
  match w.known with
  | none => true
  | some kinds => kinds.contains kind

/-- Places one block, which is numbered by its place. -/
def instantiate (w : Workspace) (request : Request) : Except PlaceError Nat × Workspace :=
  if w.knows request.kind then
    match request.attach.anchor?.filter fun anchor => (w.block? anchor).isNone with
    | some anchor => (.error (.unknownBlock anchor), w)
    | none =>
      let block := ⟨w.size, request.kind, request.fields, request.attach⟩
      (.ok w.size, { w with blocks := w.blocks ++ [block] })
  else (.error (.unknownKind request.kind), w)

instance : Host Workspace := ⟨instantiate⟩

/-- The block is the first one in an input of `parent`. -/
def isHeadOf (parent : Nat) (name : String) (block : PlacedBlock) : Bool :=
  block.attach = .statement parent name || block.attach = .input parent name

/-- A block and the blocks behind it, `count` at most. -/
def chainFrom (w : Workspace) : Nat → PlacedBlock → List PlacedBlock
  | 0, _ => []
  | count + 1, block =>
    block :: match w.blocks.find? (·.attach = .next block.id) with
      | some next => w.chainFrom count next
      | none => []

/-- The chain in an input of a block. A block stands behind earlier ones only, so that no chain is
longer than the number of blocks. -/
def children (w : Workspace) (parent : Nat) (name : String) : List PlacedBlock :=
  match w.blocks.find? (isHeadOf parent name) with
  | some head => w.chainFrom w.size head
  | none => []

end Workspace

end RobotScript.Block
