import RobotScript.Proofs.Block.Layout

namespace RobotScript.Block

/-- The characters in fields, one after the other. -/
def fieldWording (fields : Dictionary String) : List Char := fields.toList.flatMap (·.2.toList)

/-- The characters in the fields of some blocks, one after the other. -/
def wording (blocks : List PlacedBlock) : List Char := blocks.flatMap (fieldWording ·.fields)

/-- Takes every kind. -/
def takesAll (_ : String) : Bool := true

namespace Descriptor

/-- The characters in the fields of a block and of all blocks inside it. -/
def wording (d : Descriptor) : List Char := Block.wording (layout takesAll 0 .root d)

/-- The wording of a descriptor does not depend on where it is laid out. -/
def Steady (d : Descriptor) : Prop := ∀ next attach, Block.wording (layout takesAll next attach d) = d.wording

theorem wording_layoutChain_of {chain : List Descriptor} (each : ∀ d ∈ chain, d.Steady) (next : Nat)
    (head : Attachment) : Block.wording (layoutChain takesAll next head chain) = chain.flatMap wording := by
  induction chain generalizing next head with
  | nil => rfl
  | cons d chain ih =>
    obtain ⟨first, others⟩ := List.forall_mem_cons.mp each
    rw [layoutChain_of_taken rfl, Block.wording, List.flatMap_append, ← Block.wording, ← Block.wording,
      first next head, ih others, List.flatMap_cons]

theorem wording_layoutParts_of {parts : List Part} (each : ∀ part ∈ parts, ∀ d ∈ part.chain, d.Steady) (next : Nat) :
    Block.wording (layoutParts takesAll next parts) = (parts.flatMap (·.chain)).flatMap wording := by
  induction parts generalizing next with
  | nil => rfl
  | cons part parts ih =>
    obtain ⟨first, others⟩ := List.forall_mem_cons.mp each
    rw [layoutParts, Block.wording, List.flatMap_append, ← Block.wording, ← Block.wording,
      wording_layoutChain_of first, ih others, List.flatMap_cons, List.flatMap_append]

theorem wording_layout_of {d : Descriptor} (inside : ∀ id, ∀ part ∈ d.parts id, ∀ child ∈ part.chain, child.Steady)
    (next : Nat) (attach : Attachment) :
    Block.wording (layout takesAll next attach d) = fieldWording d.fields ++ d.children.flatMap wording := by
  rw [layout_of_taken rfl, Block.wording, List.flatMap_cons, ← Block.wording, wording_layoutParts_of (inside next),
    chains_parts]

theorem steady (d : Descriptor) : d.Steady := by
  induction d using parts_induction with
  | step d inside =>
    intro next attach
    rw [wording, wording_layout_of inside, wording_layout_of inside]

theorem wording_eq (d : Descriptor) : d.wording = fieldWording d.fields ++ d.children.flatMap wording :=
  wording_layout_of (fun _ _ _ child _ => steady child) 0 .root

theorem wording_of_inputs {d : Descriptor} (fields : List (String × String)) (inputs : List (String × Descriptor))
    (sameFields : d.fields.toList = fields) (sameInputs : d.inputs.toList = inputs) (statements : d.statements = .nil) :
    d.wording = fields.flatMap (·.2.toList) ++ inputs.flatMap (·.2.wording) := by
  rw [wording_eq, fieldWording, children, sameFields, sameInputs, statements, Ascending.toList, List.flatMap_nil,
    List.append_nil, List.flatMap_map]

theorem wording_withStatement {d : Descriptor} (statements : d.statements = .nil) (name : String)
    (chain : List Descriptor) : (d.withStatement name chain).wording = d.wording ++ chain.flatMap wording := by
  rw [wording_eq, wording_eq d, fields_withStatement, children_withStatement statements, List.flatMap_append,
    List.append_assoc]

end Descriptor

def Lowered.wording (lowered : Lowered) : List Char := lowered.blocks.flatMap Descriptor.wording

theorem Lowered.wording_append (a b : Lowered) : (a ++ b).wording = a.wording ++ b.wording := List.flatMap_append

theorem Lowered.wording_singleton (d : Descriptor) (unmapped : List String) :
    (Lowered.mk [d] unmapped).wording = d.wording := List.flatMap_singleton _ _

namespace BlockMap

variable {map : BlockMap}

theorem wording_compare (c : Condition) :
    (map.compare c).wording =
      (comparisonName c.op).toList ++ ((map.operand c.left).wording ++ (map.operand c.right).wording) := by
  rw [Descriptor.wording_of_inputs [("OP", comparisonName c.op)]
    [("A", map.operand c.left), ("B", map.operand c.right)] rfl rfl rfl]
  simp

theorem wording_both (a b : Descriptor) : (map.both a b).wording = "AND".toList ++ (a.wording ++ b.wording) := by
  rw [Descriptor.wording_of_inputs [("OP", "AND")] [("A", a), ("B", b)] rfl rfl rfl]
  simp

theorem wording_guarded (condition : Descriptor) (body : Lowered) :
    (map.guarded condition body).wording = condition.wording ++ body.wording := by
  rw [guarded, Lowered.wording_singleton, Descriptor.wording_withStatement rfl,
    Descriptor.wording_of_inputs [] [("IF0", condition)] rfl rfl rfl]
  simp [Lowered.wording]

theorem wording_assign (target : Slot) (op : AssignOp) (value : Value) :
    (map.lower (.assign target op value)).wording = target.chars ++ (map.operand value).wording := by
  simp only [lower, Lowered.wording_singleton]
  rw [Descriptor.wording_of_inputs [("VAR", String.ofList target.chars)] [("VALUE", map.operand value)] rfl rfl rfl]
  simp

theorem wording_repeatWhile (condition : Condition) (nodes : List Node) :
    (map.lower (.repeatWhile condition nodes)).wording =
      "WHILE".toList ++ ((map.compare condition).wording ++ (map.lowerAll nodes).wording) := by
  rw [lower, Lowered.wording_singleton, Descriptor.wording_withStatement rfl,
    Descriptor.wording_of_inputs [("MODE", "WHILE")] [("BOOL", map.compare condition)] rfl rfl rfl]
  simp [Lowered.wording]

/-- A counted loop is worded by its head and its body. -/
theorem wording_count (start stop step : Int32) (nodes : List Node) :
    (map.lower (.count start stop step nodes)).wording =
      (map.lower (.count start stop step [])).wording ++ (map.lowerAll nodes).wording := by
  rw [lower, lower, Lowered.wording_singleton, Lowered.wording_singleton, Descriptor.wording_withStatement rfl,
    Descriptor.wording_withStatement rfl, lowerAll, Lowered.empty, List.flatMap_nil, List.append_nil]
  rfl

/-- A workspace that takes every kind shows how a program is worded. -/
theorem wording_placeProgram (program : Program) :
    wording (map.placeProgram ({} : Workspace) program).2.blocks =
      (map.lowerAll program.setup).wording ++ (map.lowerAll program.loop).wording := by
  have phases : wording (layoutParts takesAll 1 (map.phases program 0)) =
      (map.payload program).flatMap Descriptor.wording := by
    rw [Descriptor.wording_layoutParts_of fun _ _ d _ => d.steady, chains_phases]
  rw [placeProgram_of_taken rfl]
  exact phases.trans List.flatMap_append

end BlockMap

end RobotScript.Block
