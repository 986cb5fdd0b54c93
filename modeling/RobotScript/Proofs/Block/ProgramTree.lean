import RobotScript.Proofs.Block.ReadBack
import RobotScript.Proofs.Program.Nesting

namespace RobotScript.Block

namespace Descriptor

theorem Distinct.of_inputs {d : Descriptor} (inputs : List (String × Descriptor)) (same : d.inputs.toList = inputs)
    (statements : d.statements = .nil) (each : ∀ entry ∈ inputs, entry.2.Distinct) : d.Distinct := by
  refine .mk ?_ fun child member => ?_
  · simp [statements, Ascending.toList]
  · rw [children, statements, same, Ascending.toList, List.flatMap_nil, List.append_nil] at member
    obtain ⟨entry, isEntry, rfl⟩ := List.mem_map.mp member
    exact each entry isEntry

theorem Distinct.leaf {d : Descriptor} (inputs : d.inputs = .nil) (statements : d.statements = .nil) : d.Distinct :=
  .of_inputs [] (by rw [inputs, Ascending.toList]) statements (by simp)

/-- A chain under a new name leaves a block without other chains distinct. -/
theorem Distinct.withStatement {d : Descriptor} (distinct : d.Distinct) (statements : d.statements = .nil)
    {name : String} (fresh : ∀ entry ∈ d.inputs.toList, entry.1 ≠ name) {chain : List Descriptor}
    (each : ∀ child ∈ chain, child.Distinct) : (d.withStatement name chain).Distinct := by
  obtain ⟨-, inside⟩ := distinct
  refine .mk ?_ ?_
  · rw [inputs_withStatement]
    by_cases empty : chain.isEmpty = true
    · simp [Descriptor.withStatement, empty, statements, Ascending.toList]
    · simpa [toList_withStatement statements empty] using fresh
  · rw [children_withStatement statements]
    exact List.forall_mem_append.mpr ⟨inside, each⟩

end Descriptor

namespace BlockMap

/-- Every name in a map stands for one place: the two phases are told apart, and in the blocks of a command no
value input is named like a statement input. -/
structure Unambiguous (map : BlockMap) : Prop where
  phases : map.base.setupInput ≠ map.base.loopInput
  commands : ∀ entry ∈ map.commands.toList, ∀ d ∈ entry.2.blocks, d.Distinct

variable {map : BlockMap}

theorem number_distinct (text : List Char) : (map.number text).Distinct := .leaf rfl rfl

theorem text_distinct (s : List Char) : (map.text s).Distinct := by
  unfold text
  dsimp only
  split
  · exact number_distinct _
  · exact .leaf rfl rfl

theorem operand_distinct (value : Value) : (map.operand value).Distinct := by
  match value with
  | .integer _ | .float _ | .bool _ => exact number_distinct _
  | .symbol (.slot _) | .symbol (.sensor .touch) | .symbol (.sensor .audio) | .symbol (.sensor .light) =>
    exact .leaf rfl rfl
  | .text _ => exact text_distinct _

theorem compare_distinct (c : Condition) : (map.compare c).Distinct :=
  .of_inputs [("A", map.operand c.left), ("B", map.operand c.right)] rfl rfl
    (by simp [operand_distinct])

theorem both_distinct {a b : Descriptor} (left : a.Distinct) (right : b.Distinct) : (map.both a b).Distinct :=
  .of_inputs [("A", a), ("B", b)] rfl rfl (by simp [left, right])

theorem guarded_distinct {condition : Descriptor} (distinct : condition.Distinct) {body : Lowered}
    (each : ∀ d ∈ body.blocks, d.Distinct) : ∀ d ∈ (map.guarded condition body).blocks, d.Distinct := by
  intro d member
  rw [List.mem_singleton.mp member]
  have head : ((Descriptor.new map.structural.branch).withInput "IF0" condition).Distinct :=
    .of_inputs [("IF0", condition)] rfl rfl (by simp [distinct])
  exact head.withStatement rfl (List.forall_mem_singleton.mpr (show "IF0" ≠ "DO0" by decide)) each

theorem differsFromAll_distinct (value : Value) {others : List Value} {condition : Option Descriptor}
    (before : ∀ d ∈ condition, d.Distinct) : ∀ d ∈ map.differsFromAll value condition others, d.Distinct := by
  induction others generalizing condition with
  | nil => exact before
  | cons other others ih =>
    refine ih fun d isCondition => ?_
    cases Option.mem_some_iff.mp isCondition
    cases condition with
    | none => exact compare_distinct _
    | some previous => exact both_distinct (before previous rfl) (compare_distinct _)

/-- Against the cases of a selection the guard of its default is a conjunction that grows to the left. -/
theorem differsFromAll_cons (value first : Value) (others : List Value) :
    map.differsFromAll value none (first :: others) =
      some (others.foldl (fun previous other => map.both previous (map.compare ⟨.ne, value, other⟩))
        (map.compare ⟨.ne, value, first⟩)) := by
  have grown (previous : Descriptor) : map.differsFromAll value (some previous) others =
      some (others.foldl (fun previous other => map.both previous (map.compare ⟨.ne, value, other⟩)) previous) := by
    induction others generalizing previous with
    | nil => rfl
    | cons other others ih => exact ih _
  exact grown _

theorem lowerDefault_distinct (value : Value) (cases : List Value) {default : Lowered}
    (each : ∀ d ∈ default.blocks, d.Distinct) (isEmpty : Bool) :
    ∀ d ∈ (map.lowerDefault value cases default isEmpty).blocks, d.Distinct := by
  unfold lowerDefault
  split
  · exact fun d member => absurd member List.not_mem_nil
  · split
    · exact each
    · rename_i condition found
      exact guarded_distinct (differsFromAll_distinct value (by simp) condition found) each

theorem blocks_append (a b : Lowered) : (a ++ b).blocks = a.blocks ++ b.blocks := rfl

theorem lowerAll_distinct_of {nodes : List Node} (each : ∀ node ∈ nodes, ∀ d ∈ (map.lower node).blocks, d.Distinct) :
    ∀ d ∈ (map.lowerAll nodes).blocks, d.Distinct := by
  induction nodes with
  | nil => exact fun d member => absurd member List.not_mem_nil
  | cons node nodes ih =>
    obtain ⟨first, others⟩ := List.forall_mem_cons.mp each
    rw [lowerAll, blocks_append]
    exact List.forall_mem_append.mpr ⟨first, ih others⟩

theorem lowerCases_distinct_of (value : Value) {cases : List (Value × List Node)}
    (each : ∀ body ∈ cases.map Prod.snd, ∀ d ∈ (map.lowerAll body).blocks, d.Distinct) :
    ∀ d ∈ (map.lowerCases value cases).blocks, d.Distinct := by
  induction cases with
  | nil => exact fun d member => absurd member List.not_mem_nil
  | cons case cases ih =>
    obtain ⟨first, others⟩ := List.forall_mem_cons.mp each
    rw [lowerCases, blocks_append]
    exact List.forall_mem_append.mpr ⟨guarded_distinct (compare_distinct _) first, ih others⟩

theorem lowerCommand_distinct (unambiguous : map.Unambiguous) (token : String) :
    ∀ d ∈ (map.lowerCommand token).blocks, d.Distinct := by
  unfold lowerCommand command?
  cases found : map.commands.get? token with
  | none => exact fun d member => absurd member List.not_mem_nil
  | some expansion => exact unambiguous.commands (token, expansion) (Dictionary.mem_of_get? found)

/-- Of the blocks that an instruction is lowered to, only those from the map can be ambiguous. -/
theorem lower_distinct (unambiguous : map.Unambiguous) (node : Node) : ∀ d ∈ (map.lower node).blocks, d.Distinct := by
  induction node using Node.bodies_induction with
  | step node inside =>
    have bodies : ∀ body ∈ node.bodies, ∀ d ∈ (map.lowerAll body).blocks, d.Distinct := fun body isBody =>
      lowerAll_distinct_of (inside body isBody)
    cases node with
    | command token => exact lowerCommand_distinct unambiguous token
    | delay ms =>
      refine List.forall_mem_singleton.mpr ?_
      exact .of_inputs [("DELAY", map.number (digits ms.toNat))] rfl rfl (by simp [number_distinct])
    | assign target op value =>
      refine List.forall_mem_singleton.mpr ?_
      exact .of_inputs [("VALUE", map.operand value)] rfl rfl (by simp [operand_distinct])
    | branch condition yes no =>
      rw [lower, blocks_append]
      refine List.forall_mem_append.mpr
        ⟨guarded_distinct (compare_distinct _) (bodies yes (by simp [Node.bodies])), ?_⟩
      split
      · exact fun d member => absurd member List.not_mem_nil
      · exact guarded_distinct (compare_distinct _) (bodies no (by simp [Node.bodies]))
    | repeatWhile condition nodes =>
      refine List.forall_mem_singleton.mpr (Descriptor.Distinct.withStatement ?_ rfl ?_
        (bodies nodes (by simp [Node.bodies])))
      · exact .of_inputs [("BOOL", map.compare condition)] rfl rfl (by simp [compare_distinct])
      · exact List.forall_mem_singleton.mpr (show "BOOL" ≠ "DO" by decide)
    | count start stop step nodes =>
      refine List.forall_mem_singleton.mpr (Descriptor.Distinct.withStatement ?_ rfl ?_
        (bodies nodes (by simp [Node.bodies])))
      · exact .of_inputs [("BY", map.number (intDigits step.toInt)), ("FROM", map.number (intDigits start.toInt)),
          ("TO", map.number (intDigits stop.toInt))] rfl rfl (by simp [number_distinct])
      · have fresh : ∀ name ∈ ["BY", "FROM", "TO"], name ≠ "DO" := by decide
        exact fun entry member => fresh entry.1 (List.mem_map_of_mem member)
    | select value cases default =>
      rw [lower, blocks_append]
      refine List.forall_mem_append.mpr ⟨lowerCases_distinct_of value fun body isBody => ?_, ?_⟩
      · exact bodies body (List.mem_append_left _ isBody)
      · exact lowerDefault_distinct value _ (bodies default (by simp [Node.bodies])) _
    | leave => exact List.forall_mem_singleton.mpr (.leaf rfl rfl)

theorem lowerAll_distinct (unambiguous : map.Unambiguous) (nodes : List Node) :
    ∀ d ∈ (map.lowerAll nodes).blocks, d.Distinct :=
  lowerAll_distinct_of fun node _ => lower_distinct unambiguous node

theorem phases_fitted (unambiguous : map.Unambiguous) (program : Program) (base : Nat) :
    Fitted base (map.phases program base) :=
  ⟨fun _ member => belongs_of_mem_phases member,
    show [map.base.setupInput, map.base.loopInput].Nodup by simp [unambiguous.phases]⟩

theorem readable_phases (unambiguous : map.Unambiguous) (program : Program) (base : Nat) :
    ∀ part ∈ map.phases program base, ∀ d ∈ part.chain, Readable d := by
  intro part isPart d member
  have inPayload : d ∈ map.payload program := map.chains_phases program base ▸ List.mem_flatMap_of_mem isPart member
  refine readable ?_
  exact (List.mem_append.mp inPayload).elim (lowerAll_distinct unambiguous program.setup d)
    (lowerAll_distinct unambiguous program.loop d)

theorem under_phases (unambiguous : map.Unambiguous) (program : Program) (base : Nat) :
    Part.under (map.phases program base) map.base.setupInput = (map.lowerProgram program).setup ∧
      Part.under (map.phases program base) map.base.loopInput = (map.lowerProgram program).loop :=
  have fitted := phases_fitted unambiguous program base
  have second : map.phases program base = [_] ++ _ :: [] := rfl
  ⟨fitted.under_eq (List.nil_append _).symm, fitted.under_eq second⟩

/-- Reading a placed program from its root block gives back the blocks of both phases, all the way down and
with nothing besides. What was in the workspace before is still there. -/
theorem placeProgram_shows (unambiguous : map.Unambiguous) {w : Workspace} (reach : w.Reachable)
    (taken : w.knows map.base.kind = true) (program : Program) :
    ∃ report placed, map.placeProgram w program = (report, placed) ∧
      w.blocks <+: placed.blocks ∧ report.base = some w.size ∧
      placed.block? w.size = some ⟨w.size, map.base.kind, .nil, .root⟩ ∧
      List.Forall₂ (Shows placed) (placed.children w.size map.base.setupInput)
        ((map.lowerProgram program).setup.filter (w.knows ·.kind)) ∧
      List.Forall₂ (Shows placed) (placed.children w.size map.base.loopInput)
        ((map.lowerProgram program).loop.filter (w.knows ·.kind)) ∧
      ∀ name, name ≠ map.base.setupInput → name ≠ map.base.loopInput → placed.children w.size name = [] := by
  let region := ⟨w.size, map.base.kind, .nil, .root⟩ :: layoutParts w.knows (w.size + 1) (map.phases program w.size)
  let placed := w.append region
  have hosted : Hosts placed w.size region := by
    refine ⟨List.sublist_append_right _ _, fun block member => ?_⟩
    rcases List.mem_append.mp member with old | new
    · exact .inr (.inr (Attachment.not_between_of_below (reach.anchored block old)))
    · exact .inl new
  have children := hosted.shows (phases_fitted unambiguous program w.size) nofun
    (readable_phases unambiguous program w.size)
  have first : placed.block? w.size = some ⟨w.size, map.base.kind, .nil, .root⟩ := by
    simp [placed, region, Workspace.block?, Workspace.append, Workspace.size]
  refine ⟨_, placed, placeProgram_of_taken taken program, List.prefix_append _ _, rfl, first, ?_, ?_, ?_⟩
  · exact (under_phases unambiguous program w.size).1 ▸ children map.base.setupInput
  · exact (under_phases unambiguous program w.size).2 ▸ children map.base.loopInput
  · intro name notSetup notLoop
    have unnamed : Part.under (map.phases program w.size) name = [] :=
      Part.under_of_unnamed (by simp [phases, notSetup.symm, notLoop.symm])
    have none := children name
    rw [unnamed, List.filter_nil] at none
    exact List.forall₂_nil_right_iff.mp none

theorem builtin_leaves {entry : String × Expansion} (isEntry : entry ∈ builtin.commands.toList) {d : Descriptor}
    (member : d ∈ entry.2.blocks) : d.inputs = .nil ∧ d.statements = .nil := by
  have leaves : ∀ entry ∈ builtin.commands.toList, ∀ d ∈ entry.2.blocks,
      d.inputs.toList.isEmpty = true ∧ d.statements.toList.isEmpty = true := by decide
  obtain ⟨inputs, statements⟩ := leaves entry isEntry d member
  exact ⟨Ascending.toList_injective (List.isEmpty_iff.mp inputs),
    Ascending.toList_injective (List.isEmpty_iff.mp statements)⟩

theorem builtin_unambiguous : builtin.Unambiguous where
  phases := by decide
  commands := by
    intro entry isEntry d member
    obtain ⟨inputs, statements⟩ := builtin_leaves isEntry member
    exact .leaf inputs statements

/-- A workspace with one block in it that knows no operands and no delays. -/
def bare : Workspace :=
  ⟨some ["base_setup_loop", "custom_controls_if", "emmi_eyes_digital"], [⟨0, "emmi_eyes_digital", .nil, .root⟩]⟩

def startled : Program where
  initFlags := []
  setup := [.delay 300]
  loop := [.delay 20,
    .branch ⟨.eq, .symbol (.sensor .touch), .integer 1⟩ [.command "ERN", .delay 5, .command "ERF"] []]

/-- The delays and the condition are missing, and what follows them moves up. -/
theorem placeProgram_shows_startled :
    builtin.Unambiguous ∧ bare.Reachable ∧ bare.knows builtin.base.kind = true ∧
      ∃ report placed, builtin.placeProgram bare startled = (report, placed) ∧
        bare.blocks <+: placed.blocks ∧ report.base = some 1 ∧
        placed.block? 1 = some ⟨1, "base_setup_loop", .nil, .root⟩ ∧
        List.Forall₂ (Shows placed) (placed.children 1 "SETUP") [] ∧
        List.Forall₂ (Shows placed) (placed.children 1 "LOOP")
          [((Descriptor.new "custom_controls_if").withInput "IF0"
              (builtin.compare ⟨.eq, .symbol (.sensor .touch), .integer 1⟩)).withStatement "DO0"
            [eye "PIN_EYE_RED" "HIGH",
              ((Descriptor.new "custom_wait").withField "UNIT" "MILLISECONDS").withInput "DELAY" (builtin.number ['5']),
              eye "PIN_EYE_RED" "LOW"]] ∧
        ∀ name, name ≠ "SETUP" → name ≠ "LOOP" → placed.children 1 name = [] := by
  have reach : bare.Reachable := .instantiate (.empty bare.known) ⟨"emmi_eyes_digital", .nil, .root⟩
  have taken : bare.knows builtin.base.kind = true := by decide
  exact ⟨builtin_unambiguous, reach, taken, placeProgram_shows builtin_unambiguous reach taken startled⟩

end BlockMap

end RobotScript.Block
