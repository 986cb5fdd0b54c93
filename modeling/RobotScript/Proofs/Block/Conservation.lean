import Mathlib.Algebra.BigOperators.Group.List.Basic
import Mathlib.Algebra.GroupWithZero.Nat
import RobotScript.Proofs.Block.Accounting

namespace RobotScript

namespace Node

mutual

/-- An instruction and all inside it, in the order of the script; each stands before those in its bodies. -/
def preorder : Node → List Node
  | .branch condition yes no => .branch condition yes no :: (preorderAll yes ++ preorderAll no)
  | .repeatWhile condition body => .repeatWhile condition body :: preorderAll body
  | .count start stop step body => .count start stop step body :: preorderAll body
  | .select value cases default =>
    .select value cases default :: (preorderCases cases ++ preorderAll default)
  | node => [node]

def preorderAll : List Node → List Node
  | [] => []
  | node :: nodes => preorder node ++ preorderAll nodes

def preorderCases : List (Value × List Node) → List Node
  | [] => []
  | (_, body) :: cases => preorderAll body ++ preorderCases cases

end

theorem preorderCases_eq (cases : List (Value × List Node)) :
    preorderCases cases = (cases.map Prod.snd).flatMap preorderAll := by
  induction cases with
  | nil => rfl
  | cons case cases ih => rw [preorderCases, ih, List.map_cons, List.flatMap_cons]

/-- Whichever kind of instruction it is, its bodies follow it one after the other. -/
theorem preorder_eq (node : Node) : node.preorder = node :: node.bodies.flatMap preorderAll := by
  cases node <;> simp [preorder, bodies, preorderCases_eq]

theorem preorderAll_append (nodes more : List Node) :
    preorderAll (nodes ++ more) = preorderAll nodes ++ preorderAll more := by
  induction nodes with
  | nil => rfl
  | cons node nodes ih => rw [List.cons_append, preorderAll, preorderAll, ih, List.append_assoc]

end Node

namespace Block

namespace Descriptor

/-- The blocks in the statement chains of a block and of all blocks inside it. -/
def chained (d : Descriptor) : List Descriptor := d.all.flatMap fun block => block.statements.toList.flatMap (·.2)

theorem chained_eq (d : Descriptor) :
    d.chained = d.statements.toList.flatMap (·.2) ++ d.children.flatMap chained := by
  rw [chained, all_eq, List.flatMap_cons, List.flatMap_assoc]
  rfl

theorem chained_of_inputs {d : Descriptor} (inputs : List (String × Descriptor)) (same : d.inputs.toList = inputs)
    (statements : d.statements = .nil) (each : ∀ entry ∈ inputs, entry.2.chained = []) : d.chained = [] := by
  have ofInputs : (inputs.map (·.2)).flatMap chained = [] := by
    rw [List.flatMap_eq_nil_iff]
    exact List.forall_mem_map.mpr each
  rw [chained_eq, children, statements, same, Ascending.toList, List.flatMap_nil, List.append_nil, List.nil_append,
    ofInputs]

theorem chained_leaf {d : Descriptor} (inputs : d.inputs = .nil) (statements : d.statements = .nil) : d.chained = [] :=
  chained_of_inputs [] (by rw [inputs, Ascending.toList]) statements (by simp)

end Descriptor

/-- Some blocks, and with them all that stand in statement chains below. -/
def stacked (blocks : List Descriptor) : List Descriptor := blocks ++ blocks.flatMap Descriptor.chained

theorem length_stacked_append (blocks more : List Descriptor) :
    (stacked (blocks ++ more)).length = (stacked blocks).length + (stacked more).length := by
  simp only [stacked, List.flatMap_append, List.length_append]
  omega

theorem length_stacked_of_flat {blocks : List Descriptor} (flat : ∀ d ∈ blocks, d.chained = []) :
    (stacked blocks).length = blocks.length := by
  rw [stacked, List.flatMap_eq_nil_iff.mpr flat, List.append_nil]

/-- A block with nothing but values in it takes up itself, and its one chain. -/
theorem length_stacked_withStatement {d : Descriptor} (flat : d.chained = []) (statements : d.statements = .nil)
    (name : String) (chain : List Descriptor) :
    (stacked [d.withStatement name chain]).length = 1 + (stacked chain).length := by
  by_cases empty : chain.isEmpty = true
  · rw [Descriptor.withStatement, if_pos empty, List.isEmpty_iff.mp empty, length_stacked_of_flat (by simpa using flat)]
    rfl
  · have inside : d.children.flatMap Descriptor.chained = [] := by
      rw [Descriptor.chained_eq] at flat
      exact (List.append_eq_nil_iff.mp flat).2
    have below : (d.withStatement name chain).chained = stacked chain := by
      rw [Descriptor.chained_eq, Descriptor.toList_withStatement statements empty,
        Descriptor.children_withStatement statements, List.flatMap_singleton, List.flatMap_append, inside,
        List.nil_append, stacked]
    rw [stacked, List.flatMap_singleton, below, List.length_append, List.length_singleton]

namespace BlockMap

open Node (preorder preorderAll)

variable (map : BlockMap)

/-- The token of a command that the map has no entry for. -/
def missing? : Node → Option String
  | .command token => if token ∈ map.commands.toList.map Prod.fst then none else some token
  | _ => none

/-- How many blocks an instruction itself takes up in the stacks; those in its bodies count for themselves. -/
def weight : Node → Nat
  | .command token => ((map.command? token).getD []).length
  | .branch _ _ no => 1 + if no = [] then 0 else 1
  | .select _ cases default => cases.length + if cases = [] ∨ default = [] then 0 else 1
  | .delay _ | .assign _ _ _ | .repeatWhile _ _ | .count _ _ _ _ | .leave => 1

variable {map}

theorem command?_eq_some {token : String} {blocks : List Descriptor} (found : map.command? token = some blocks) :
    ∃ entry ∈ map.commands.toList, entry.1 = token ∧ entry.2.blocks = blocks := by
  obtain ⟨expansion, inMap, rfl⟩ := Option.map_eq_some_iff.mp found
  exact ⟨(token, expansion), Dictionary.mem_of_get? inMap, rfl, rfl⟩

theorem mem_commands_iff {token : String} :
    token ∈ map.commands.toList.map Prod.fst ↔ (map.command? token).isSome = true := by
  constructor
  · intro member
    obtain ⟨entry, isEntry, rfl⟩ := List.mem_map.mp member
    rw [Option.isSome_iff_ne_none, command?, ne_eq, Option.map_eq_none_iff, Dictionary.get?, List.lookup_eq_none_iff]
    exact fun absent => by simpa using absent entry isEntry
  · intro known
    obtain ⟨blocks, found⟩ := Option.isSome_iff_exists.mp known
    obtain ⟨entry, isEntry, rfl, -⟩ := command?_eq_some found
    exact List.mem_map_of_mem isEntry

theorem unmapped_lowerCommand (token : String) :
    (map.lowerCommand token).unmapped = (map.missing? (.command token)).toList := by
  simp only [missing?, mem_commands_iff]
  unfold lowerCommand
  cases map.command? token <;> rfl

theorem unmapped_append (a b : Lowered) : (a ++ b).unmapped = a.unmapped ++ b.unmapped := rfl

theorem unmapped_lowerAll_of {nodes : List Node}
    (each : ∀ node ∈ nodes, (map.lower node).unmapped = node.preorder.filterMap map.missing?) :
    (map.lowerAll nodes).unmapped = (preorderAll nodes).filterMap map.missing? := by
  induction nodes with
  | nil => rfl
  | cons node nodes ih =>
    obtain ⟨first, others⟩ := List.forall_mem_cons.mp each
    rw [lowerAll, unmapped_append, first, ih others, preorderAll, List.filterMap_append]

theorem unmapped_lowerCases_of (value : Value) {cases : List (Value × List Node)}
    (each : ∀ body ∈ cases.map Prod.snd,
      (map.lowerAll body).unmapped = (preorderAll body).filterMap map.missing?) :
    (map.lowerCases value cases).unmapped = ((cases.map Prod.snd).flatMap preorderAll).filterMap map.missing? := by
  induction cases with
  | nil => rfl
  | cons case cases ih =>
    obtain ⟨first, others⟩ := List.forall_mem_cons.mp each
    rw [lowerCases, unmapped_append, ih others, List.map_cons, List.flatMap_cons, List.filterMap_append, ← first]
    rfl

/-- Guarded or not, a default that is there is lowered once. -/
theorem unmapped_lowerDefault (value : Value) (cases : List Value) {default : Lowered} {isEmpty : Bool}
    (nothing : isEmpty = true → default.unmapped = []) :
    (map.lowerDefault value cases default isEmpty).unmapped = default.unmapped := by
  unfold lowerDefault
  split
  · rename_i empty
    exact (nothing empty).symm
  · split <;> rfl

/-- The commands without a block are met in the order of the script, each as often as it stands there. -/
theorem unmapped_lower (node : Node) : (map.lower node).unmapped = node.preorder.filterMap map.missing? := by
  induction node using Node.bodies_induction with
  | step node inside =>
    have bodies : ∀ body ∈ node.bodies,
        (map.lowerAll body).unmapped = (preorderAll body).filterMap map.missing? := fun body isBody =>
      unmapped_lowerAll_of (inside body isBody)
    rw [Node.preorder_eq, List.filterMap_cons]
    cases node with
    | command token =>
      rw [lower, unmapped_lowerCommand]
      cases map.missing? (.command token) <;> rfl
    | delay ms => rfl
    | assign target op value => rfl
    | leave => rfl
    | branch condition yes no =>
      have ofYes := bodies yes (by simp [Node.bodies])
      have ofNo := bodies no (by simp [Node.bodies])
      have second : (if no.isEmpty then Lowered.empty
          else map.guarded (map.compare condition.inverted) (map.lowerAll no)).unmapped =
            (map.lowerAll no).unmapped := by
        split
        · rename_i empty
          rw [List.isEmpty_iff.mp empty]
          rfl
        · rfl
      rw [lower, unmapped_append, second]
      simpa [Node.bodies, missing?, guarded, ← ofNo] using ofYes
    | repeatWhile condition nodes => simpa [Node.bodies, missing?, lower] using bodies nodes (by simp [Node.bodies])
    | count start stop step nodes =>
      simpa [Node.bodies, missing?, lower] using bodies nodes (by simp [Node.bodies])
    | select value cases default =>
      have ofDefault := bodies default (by simp [Node.bodies])
      have ofCases := unmapped_lowerCases_of value fun body isBody => bodies body (List.mem_append_left _ isBody)
      have nothing : default.isEmpty = true → (map.lowerAll default).unmapped = [] := by
        intro empty
        rw [List.isEmpty_iff.mp empty]
        rfl
      rw [lower, unmapped_append, unmapped_lowerDefault value _ nothing, ofCases, ofDefault]
      simp [Node.bodies, missing?]

variable (map)

theorem number_flat (text : List Char) : (map.number text).chained = [] := Descriptor.chained_leaf rfl rfl

theorem operand_flat (value : Value) : (map.operand value).chained = [] := by
  have ofText (s : List Char) : (map.text s).chained = [] := by
    unfold text
    dsimp only
    split <;> exact Descriptor.chained_leaf rfl rfl
  match value with
  | .integer _ | .float _ | .bool _ => exact map.number_flat _
  | .symbol (.slot _) | .symbol (.sensor .touch) | .symbol (.sensor .audio) | .symbol (.sensor .light) =>
    exact Descriptor.chained_leaf rfl rfl
  | .text _ => exact ofText _

theorem compare_flat (c : Condition) : (map.compare c).chained = [] :=
  Descriptor.chained_of_inputs [("A", map.operand c.left), ("B", map.operand c.right)] rfl rfl
    (by simp [operand_flat])

theorem conjunction_flat (value : Value) (others : List Value) {previous : Descriptor} (flat : previous.chained = []) :
    (others.foldl (fun previous other => map.both previous (map.compare ⟨.ne, value, other⟩))
      previous).chained = [] := by
  induction others generalizing previous with
  | nil => exact flat
  | cons other others ih =>
    refine ih (Descriptor.chained_of_inputs [("A", previous), ("B", map.compare ⟨.ne, value, other⟩)] rfl rfl ?_)
    simp [flat, compare_flat]

theorem length_stacked_guarded {condition : Descriptor} (flat : condition.chained = []) (body : Lowered) :
    (stacked (map.guarded condition body).blocks).length = 1 + (stacked body.blocks).length := by
  refine length_stacked_withStatement ?_ rfl "DO0" body.blocks
  exact Descriptor.chained_of_inputs [("IF0", condition)] rfl rfl (by simp [flat])

theorem length_stacked_lowerAll_of {nodes : List Node}
    (each : ∀ node ∈ nodes, (stacked (map.lower node).blocks).length = (node.preorder.map map.weight).sum) :
    (stacked (map.lowerAll nodes).blocks).length = ((preorderAll nodes).map map.weight).sum := by
  induction nodes with
  | nil => rfl
  | cons node nodes ih =>
    obtain ⟨first, others⟩ := List.forall_mem_cons.mp each
    rw [lowerAll, blocks_append, length_stacked_append, first, ih others, preorderAll, List.map_append,
      List.sum_append]

theorem length_stacked_lowerCases_of (value : Value) {cases : List (Value × List Node)}
    (each : ∀ body ∈ cases.map Prod.snd,
      (stacked (map.lowerAll body).blocks).length = ((preorderAll body).map map.weight).sum) :
    (stacked (map.lowerCases value cases).blocks).length =
      cases.length + (((cases.map Prod.snd).flatMap preorderAll).map map.weight).sum := by
  induction cases with
  | nil => rfl
  | cons case cases ih =>
    obtain ⟨first, others⟩ := List.forall_mem_cons.mp each
    have here := map.length_stacked_guarded (map.compare_flat ⟨.eq, value, case.1⟩) (map.lowerAll case.2)
    have rest := ih others
    rw [lowerCases, blocks_append, length_stacked_append, here, rest, first, List.map_cons, List.flatMap_cons,
      List.map_append, List.sum_append, List.length_cons]
    omega

/-- A default takes up one block more than its instructions where there are cases to guard it against. -/
theorem length_stacked_lowerDefault (value : Value) (cases : List Value) (default : List Node) :
    (stacked (map.lowerDefault value cases (map.lowerAll default) default.isEmpty).blocks).length =
      (if cases = [] ∨ default = [] then 0 else 1) + (stacked (map.lowerAll default).blocks).length := by
  unfold lowerDefault
  by_cases nothing : default = []
  · simp [nothing, lowerAll, Lowered.empty]
  · rw [if_neg (by simpa using nothing)]
    cases cases with
    | nil => simp [differsFromAll]
    | cons first others =>
      -- The guard is a tree of comparisons, which are values and stand in no chain.
      have flat := map.conjunction_flat value others (map.compare_flat ⟨.ne, value, first⟩)
      rw [differsFromAll_cons, if_neg (by simp [nothing])]
      exact map.length_stacked_guarded flat (map.lowerAll default)

/-- The map turns no command into a block with a statement chain in it. -/
def Flat : Prop := ∀ entry ∈ map.commands.toList, ∀ d ∈ entry.2.blocks, d.chained = []

variable {map}

theorem length_stacked_lowerCommand (flat : map.Flat) (token : String) :
    (stacked (map.lowerCommand token).blocks).length = map.weight (.command token) := by
  rw [lowerCommand, weight]
  cases found : map.command? token with
  | none => rfl
  | some blocks =>
    obtain ⟨entry, isEntry, -, rfl⟩ := command?_eq_some found
    exact length_stacked_of_flat (flat entry isEntry)

/-- Every instruction, wherever it stands, takes up its own blocks in the stacks and no others. -/
theorem length_stacked_lower (flat : map.Flat) (node : Node) :
    (stacked (map.lower node).blocks).length = (node.preorder.map map.weight).sum := by
  induction node using Node.bodies_induction with
  | step node inside =>
    have bodies : ∀ body ∈ node.bodies,
        (stacked (map.lowerAll body).blocks).length = ((preorderAll body).map map.weight).sum := fun body isBody =>
      map.length_stacked_lowerAll_of (inside body isBody)
    rw [Node.preorder_eq, List.map_cons, List.sum_cons]
    cases node with
    | command token => exact length_stacked_lowerCommand flat token
    | delay ms =>
      refine length_stacked_of_flat (List.forall_mem_singleton.mpr ?_)
      exact Descriptor.chained_of_inputs [("DELAY", map.number (digits ms.toNat))] rfl rfl (by simp [number_flat])
    | assign target op value =>
      refine length_stacked_of_flat (List.forall_mem_singleton.mpr ?_)
      exact Descriptor.chained_of_inputs [("VALUE", map.operand value)] rfl rfl (by simp [operand_flat])
    | leave => exact length_stacked_of_flat (List.forall_mem_singleton.mpr (Descriptor.chained_leaf rfl rfl))
    | branch condition yes no =>
      have ofYes := bodies yes (by simp [Node.bodies])
      have ofNo := bodies no (by simp [Node.bodies])
      have first := map.length_stacked_guarded (map.compare_flat condition) (map.lowerAll yes)
      have second := map.length_stacked_guarded (map.compare_flat condition.inverted) (map.lowerAll no)
      rw [lower, blocks_append, length_stacked_append, first]
      simp only [weight, Node.bodies, List.flatMap_cons, List.flatMap_nil, List.append_nil, List.map_append,
        List.sum_append, ← ofYes, ← ofNo]
      by_cases nothing : no = []
      · simp [nothing, lowerAll, Lowered.empty, stacked]
      · rw [if_neg (by simpa using nothing), if_neg nothing, second]
        omega
    | repeatWhile condition nodes =>
      have ofBody := bodies nodes (by simp [Node.bodies])
      rw [lower, length_stacked_withStatement ?_ rfl, ofBody]
      · simp [weight, Node.bodies]
      · exact Descriptor.chained_of_inputs [("BOOL", map.compare condition)] rfl rfl (by simp [compare_flat])
    | count start stop step nodes =>
      have ofBody := bodies nodes (by simp [Node.bodies])
      rw [lower, length_stacked_withStatement ?_ rfl, ofBody]
      · simp [weight, Node.bodies]
      · exact Descriptor.chained_of_inputs [("BY", map.number (intDigits step.toInt)),
          ("FROM", map.number (intDigits start.toInt)), ("TO", map.number (intDigits stop.toInt))] rfl rfl
          (by simp [number_flat])
    | select value cases default =>
      have ofDefault := bodies default (by simp [Node.bodies])
      have ofCases := map.length_stacked_lowerCases_of value fun body isBody =>
        bodies body (List.mem_append_left _ isBody)
      rw [lower, blocks_append, length_stacked_append, ofCases, length_stacked_lowerDefault, ofDefault]
      simp only [weight, Node.bodies, List.flatMap_append, List.flatMap_singleton, List.map_append, List.sum_append,
        List.map_eq_nil_iff]
      omega

/-- Lowering a program loses and repeats nothing. There is one warning for each command that the map does not know, in
the order of the script, and where the map brings no chains of its own, the stacks with all chains below them hold
just the blocks that the instructions of the program take up, whatever their depth. -/
theorem lowerProgram_conserves (map : BlockMap) (p : Program) :
    ((map.lowerProgram p).unmapped.map fun token => (Warning.unmapped token).message) =
        ((preorderAll p.nodes).filterMap map.missing?).map
          (fun token => "Command \"" ++ token ++ "\" is not mapped to a block.") ∧
      (map.Flat → (stacked ((map.lowerProgram p).setup ++ (map.lowerProgram p).loop)).length =
        ((preorderAll p.nodes).map map.weight).sum) := by
  have unmapped (nodes : List Node) : (map.lowerAll nodes).unmapped = (preorderAll nodes).filterMap map.missing? :=
    unmapped_lowerAll_of fun node _ => unmapped_lower node
  rw [Program.nodes, Node.preorderAll_append]
  refine ⟨?_, fun flat => ?_⟩
  · rw [List.filterMap_append, ← unmapped, ← unmapped]
    rfl
  · have blocks (nodes : List Node) :
        (stacked (map.lowerAll nodes).blocks).length = ((preorderAll nodes).map map.weight).sum :=
      map.length_stacked_lowerAll_of fun node _ => length_stacked_lower flat node
    rw [List.map_append, List.sum_append, ← blocks, ← blocks]
    exact length_stacked_append _ _

/-- Two commands that are not known, one of them twice, in the bodies of a selection and of the branch in its
default. -/
def scattered : Program where
  initFlags := []
  setup := [.command "ZAP"]
  loop := [
    .select (.symbol (.sensor .light)) [(.integer 1, [.command "EAN", .command "ZIP"])]
      [.branch ⟨.gt, .symbol (.sensor .touch), .integer 0⟩ [.command "ZAP"] [.leave]],
    .select (.symbol (.sensor .light)) [] [.delay 5]]

theorem lowerProgram_conserves_scattered :
    builtin.Flat ∧
      ((builtin.lowerProgram scattered).unmapped.map fun token => (Warning.unmapped token).message) =
        ["Command \"ZAP\" is not mapped to a block.", "Command \"ZIP\" is not mapped to a block.",
          "Command \"ZAP\" is not mapped to a block."] ∧
      (stacked ((builtin.lowerProgram scattered).setup ++ (builtin.lowerProgram scattered).loop)).length = 9 := by
  have flat : builtin.Flat := by
    intro entry isEntry d member
    obtain ⟨inputs, statements⟩ := builtin_leaves isEntry member
    exact Descriptor.chained_leaf inputs statements
  obtain ⟨warnings, blocks⟩ := lowerProgram_conserves builtin scattered
  exact ⟨flat, warnings.trans (by decide), (blocks flat).trans (by decide)⟩

end BlockMap

end Block

end RobotScript
