import RobotScript.Block.Workspace
import RobotScript.Proofs.Dictionary

namespace RobotScript.Block

/-- A named place inside a block: what its first block is attached by, and the chain that belongs there. -/
structure Part where
  name : String
  head : Attachment
  chain : List Descriptor

namespace Part

/-- The place is a value or a statement input of the block with this number. -/
def Belongs (id : Nat) (part : Part) : Prop :=
  part.head = .input id part.name ∨ part.head = .statement id part.name

variable {id : Nat} {part : Part}

theorem Belongs.anchor (belongs : part.Belongs id) : part.head.anchor? = some id := by
  rcases belongs with head | head <;> rw [head] <;> rfl

theorem Belongs.head_eq_iff (belongs : part.Belongs id) (name : String) :
    part.head = .statement id name ∨ part.head = .input id name ↔ part.name = name := by
  rcases belongs with head | head <;> simp [head]

theorem Belongs.head_ne_next (belongs : part.Belongs id) (previous : Nat) : part.head ≠ .next previous := by
  rcases belongs with head | head <;> simp [head]

end Part

namespace Descriptor

/-- The blocks right inside a block, in the order in which they are placed. -/
def children (d : Descriptor) : List Descriptor := d.inputs.toList.map (·.2) ++ d.statements.toList.flatMap (·.2)

theorem input_mem_children {d : Descriptor} {entry : String × Descriptor} (member : entry ∈ d.inputs.toList) :
    entry.2 ∈ d.children :=
  List.mem_append_left _ (List.mem_map_of_mem member)

theorem statement_mem_children {d child : Descriptor} {entry : String × List Descriptor}
    (member : entry ∈ d.statements.toList) (inChain : child ∈ entry.2) : child ∈ d.children :=
  List.mem_append_right _ (List.mem_flatMap_of_mem member inChain)

/-- Induction over the blocks right inside a block, whether they belong to value or to statement inputs. -/
theorem children_induction {motive : Descriptor → Prop}
    (step : ∀ d : Descriptor, (∀ child ∈ d.children, motive child) → motive d) : ∀ d, motive d := by
  refine @Descriptor.rec motive (fun _ inputs => ∀ entry ∈ inputs.toList, motive entry.2)
    (fun _ statements => ∀ entry ∈ statements.toList, ∀ child ∈ entry.2, motive child)
    (fun chain => ∀ child ∈ chain, motive child) ?block ?noInputs ?inputs ?noStatements ?statements ?noChain ?chain
  case block =>
    intro kind fields inputs statements ofInputs ofStatements
    refine step _ fun child member => ?_
    rcases List.mem_append.mp member with ofInput | ofStatement
    · obtain ⟨entry, inside, rfl⟩ := List.mem_map.mp ofInput
      exact ofInputs entry inside
    · obtain ⟨entry, inside, inChain⟩ := List.mem_flatMap.mp ofStatement
      exact ofStatements entry inside child inChain
  case inputs => exact fun _ _ _ _ first others => List.forall_mem_cons.mpr ⟨first, others⟩
  case statements => exact fun _ _ _ _ first others => List.forall_mem_cons.mpr ⟨first, others⟩
  case chain => exact fun _ _ first others => List.forall_mem_cons.mpr ⟨first, others⟩
  case noInputs | noStatements | noChain => exact fun _ member => absurd member List.not_mem_nil

theorem toList_withStatement {d : Descriptor} (statements : d.statements = .nil) {name : String}
    {chain : List Descriptor} (nonempty : ¬chain.isEmpty = true) :
    (d.withStatement name chain).statements.toList = [(name, chain)] := by
  rw [withStatement, if_neg nonempty, statements]
  rfl

theorem fields_withStatement (d : Descriptor) (name : String) (chain : List Descriptor) :
    (d.withStatement name chain).fields = d.fields := by
  unfold withStatement
  split <;> rfl

theorem inputs_withStatement (d : Descriptor) (name : String) (chain : List Descriptor) :
    (d.withStatement name chain).inputs = d.inputs := by
  unfold withStatement
  split <;> rfl

/-- A chain goes behind the blocks of the value inputs. -/
theorem children_withStatement {d : Descriptor} (statements : d.statements = .nil) (name : String)
    (chain : List Descriptor) : (d.withStatement name chain).children = d.children ++ chain := by
  rw [children, children, inputs_withStatement, statements]
  by_cases empty : chain.isEmpty = true
  · rw [withStatement, if_pos empty, statements, List.isEmpty_iff.mp empty, List.append_nil]
  · simp [toList_withStatement statements empty, Ascending.toList]

/-- The places inside a block with a number, in the order in which they are filled. A value input holds a
chain of one. -/
def parts (d : Descriptor) (id : Nat) : List Part :=
  d.inputs.toList.map (fun entry => ⟨entry.1, .input id entry.1, [entry.2]⟩) ++
    d.statements.toList.map fun entry => ⟨entry.1, .statement id entry.1, entry.2⟩

theorem belongs_of_mem_parts {d : Descriptor} {id : Nat} {part : Part} (member : part ∈ d.parts id) :
    part.Belongs id := by
  rcases List.mem_append.mp member with ofInput | ofStatement
  · obtain ⟨entry, -, rfl⟩ := List.mem_map.mp ofInput
    exact .inl rfl
  · obtain ⟨entry, -, rfl⟩ := List.mem_map.mp ofStatement
    exact .inr rfl

theorem chains_parts (d : Descriptor) (id : Nat) : (d.parts id).flatMap (·.chain) = d.children := by
  simp only [parts, children, List.flatMap_append, List.flatMap_map, ← List.map_eq_flatMap]

theorem mem_children_of_mem_parts {d child : Descriptor} {id : Nat} {part : Part} (member : part ∈ d.parts id)
    (inChain : child ∈ part.chain) : child ∈ d.children :=
  d.chains_parts id ▸ List.mem_flatMap_of_mem member inChain

theorem parts_induction {motive : Descriptor → Prop}
    (step : ∀ d : Descriptor, (∀ id, ∀ part ∈ d.parts id, ∀ child ∈ part.chain, motive child) → motive d) :
    ∀ d, motive d :=
  children_induction fun d inside => step d fun _ _ isPart child inChain =>
    inside child (mem_children_of_mem_parts isPart inChain)

end Descriptor

end RobotScript.Block
