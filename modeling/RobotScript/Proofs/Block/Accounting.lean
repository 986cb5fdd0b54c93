import RobotScript.Proofs.Block.ProgramTree
import RobotScript.Proofs.Block.Wording

namespace RobotScript.Block

namespace Descriptor

section Asked

variable (takes : String → Bool)

mutual

/-- The blocks that a workspace is asked for when a descriptor is placed, in order. What is inside a block is
asked for only if the block is taken. -/
def asked : Descriptor → List Descriptor
  | .mk kind fields inputs statements =>
    .mk kind fields inputs statements ::
      if takes kind then askedInputs inputs ++ askedStatements statements else []

def askedChain : List Descriptor → List Descriptor
  | [] => []
  | block :: chain => asked block ++ askedChain chain

def askedInputs {bound : Option String} : Ascending Descriptor bound → List Descriptor
  | .nil => []
  | .cons _ _ child inputs => asked child ++ askedInputs inputs

def askedStatements {bound : Option String} : Ascending (List Descriptor) bound → List Descriptor
  | .nil => []
  | .cons _ _ chain statements => askedChain chain ++ askedStatements statements

end

theorem askedChain_eq (chain : List Descriptor) : askedChain takes chain = chain.flatMap (asked takes) := by
  induction chain with
  | nil => rfl
  | cons block chain ih => rw [askedChain, ih, List.flatMap_cons]

theorem askedInputs_eq {bound : Option String} (inputs : Ascending Descriptor bound) :
    askedInputs takes inputs = (inputs.toList.map (·.2)).flatMap (asked takes) := by
  induction inputs with
  | nil => rfl
  | cons name _ child inputs ih => rw [askedInputs, ih, Ascending.toList, List.map_cons, List.flatMap_cons]

theorem askedStatements_eq {bound : Option String} (statements : Ascending (List Descriptor) bound) :
    askedStatements takes statements = (statements.toList.flatMap (·.2)).flatMap (asked takes) := by
  induction statements with
  | nil => rfl
  | cons name _ chain statements ih =>
    rw [askedStatements, ih, askedChain_eq, Ascending.toList, List.flatMap_cons, List.flatMap_append]

theorem asked_eq (d : Descriptor) :
    asked takes d = d :: if takes d.kind then d.children.flatMap (asked takes) else [] := by
  obtain ⟨kind, fields, inputs, statements⟩ := d
  rw [asked, askedInputs_eq, askedStatements_eq, ← List.flatMap_append]
  rfl

end Asked

/-- A block and all blocks inside it. -/
def all (d : Descriptor) : List Descriptor := asked takesAll d

theorem all_eq (d : Descriptor) : d.all = d :: d.children.flatMap all := asked_eq takesAll d

end Descriptor

open Descriptor (asked)

section Shares

variable (takes : String → Bool)

/-- Those of the blocks that a workspace is asked for that it takes. -/
def granted (blocks : List Descriptor) : List Descriptor := (blocks.flatMap (asked takes)).filter (takes ·.kind)

/-- Those that it turns down. It took all blocks around each of these. -/
def denied (blocks : List Descriptor) : List Descriptor := (blocks.flatMap (asked takes)).filter (!takes ·.kind)

theorem granted_append (blocks more : List Descriptor) :
    granted takes (blocks ++ more) = granted takes blocks ++ granted takes more := by
  simp only [granted, List.flatMap_append, List.filter_append]

theorem denied_append (blocks more : List Descriptor) :
    denied takes (blocks ++ more) = denied takes blocks ++ denied takes more := by
  simp only [denied, List.flatMap_append, List.filter_append]

theorem granted_cons (d : Descriptor) (blocks : List Descriptor) :
    granted takes (d :: blocks) = granted takes [d] ++ granted takes blocks := granted_append takes [d] blocks

theorem denied_cons (d : Descriptor) (blocks : List Descriptor) :
    denied takes (d :: blocks) = denied takes [d] ++ denied takes blocks := denied_append takes [d] blocks

variable {takes} {d : Descriptor}

theorem granted_of_taken (taken : takes d.kind = true) : granted takes [d] = d :: granted takes d.children := by
  simp [granted, Descriptor.asked_eq, taken]

theorem granted_of_refused (refused : takes d.kind = false) : granted takes [d] = [] := by
  simp [granted, Descriptor.asked_eq, refused]

theorem denied_of_taken (taken : takes d.kind = true) : denied takes [d] = denied takes d.children := by
  simp [denied, Descriptor.asked_eq, taken]

theorem denied_of_refused (refused : takes d.kind = false) : denied takes [d] = [d] := by
  simp [denied, Descriptor.asked_eq, refused]

theorem length_flatMap_all_of {blocks : List Descriptor}
    (each : ∀ d ∈ blocks, d.all.length = (granted takes [d]).length + ((denied takes [d]).flatMap (·.all)).length) :
    (blocks.flatMap (·.all)).length =
      (granted takes blocks).length + ((denied takes blocks).flatMap (·.all)).length := by
  induction blocks with
  | nil => rfl
  | cons d blocks ih =>
    obtain ⟨first, others⟩ := List.forall_mem_cons.mp each
    have rest := ih others
    rw [granted_cons, denied_cons, List.flatMap_cons, List.flatMap_append, List.length_append, List.length_append,
      List.length_append]
    omega

/-- Every block of a tree is taken, or belongs to just one block that is turned down. -/
theorem length_all (d : Descriptor) :
    d.all.length = (granted takes [d]).length + ((denied takes [d]).flatMap (·.all)).length := by
  induction d using Descriptor.children_induction with
  | step d inside =>
    cases taken : takes d.kind with
    | true =>
      have children := length_flatMap_all_of inside
      rw [Descriptor.all_eq, granted_of_taken taken, denied_of_taken taken, List.length_cons, List.length_cons,
        children]
      omega
    | false =>
      rw [granted_of_refused taken, denied_of_refused taken, List.flatMap_singleton, List.length_nil, Nat.zero_add]

theorem length_flatMap_all (takes : String → Bool) (blocks : List Descriptor) :
    (blocks.flatMap (·.all)).length =
      (granted takes blocks).length + ((denied takes blocks).flatMap (·.all)).length :=
  length_flatMap_all_of fun d _ => length_all d

end Shares

section Answers

variable {takes : String → Bool}

theorem flatMap_refusals_of {blocks : List Descriptor}
    (each : ∀ d ∈ blocks, refusals takes d = (denied takes [d]).map (.unknownKind ·.kind)) :
    blocks.flatMap (refusals takes) = (denied takes blocks).map (.unknownKind ·.kind) := by
  induction blocks with
  | nil => rfl
  | cons d blocks ih =>
    obtain ⟨first, others⟩ := List.forall_mem_cons.mp each
    rw [List.flatMap_cons, first, ih others, denied_cons takes d blocks, List.map_append]

/-- A workspace answers for the blocks that it turns down, one by one and in the order in which it is asked. -/
theorem refusals_eq (d : Descriptor) : refusals takes d = (denied takes [d]).map (.unknownKind ·.kind) := by
  induction d using Descriptor.children_induction with
  | step d inside =>
    cases taken : takes d.kind with
    | true => rw [denied_of_taken taken, ← flatMap_refusals_of inside, refusals_of_taken taken]
    | false => rw [refusals_of_refused taken, denied_of_refused taken, List.map_singleton]

theorem flatMap_refusals (blocks : List Descriptor) :
    blocks.flatMap (refusals takes) = (denied takes blocks).map (.unknownKind ·.kind) :=
  flatMap_refusals_of fun d _ => refusals_eq d

end Answers

section Contents

variable {takes : String → Bool}

/-- What a placed block has from its descriptor. -/
def PlacedBlock.content (block : PlacedBlock) : String × Dictionary String := (block.kind, block.fields)

def Descriptor.content (d : Descriptor) : String × Dictionary String := (d.kind, d.fields)

/-- A descriptor is laid out as the blocks that are taken, in the order in which they are asked for. -/
def LaidOut (takes : String → Bool) (d : Descriptor) : Prop :=
  ∀ next attach, (layout takes next attach d).map (·.content) = (granted takes [d]).map (·.content)

theorem content_layoutChain_of {chain : List Descriptor} (each : ∀ d ∈ chain, LaidOut takes d) (next : Nat)
    (head : Attachment) :
    (layoutChain takes next head chain).map (·.content) = (granted takes chain).map (·.content) := by
  induction chain generalizing next head with
  | nil => rfl
  | cons d chain ih =>
    obtain ⟨first, others⟩ := List.forall_mem_cons.mp each
    rw [layoutChain, List.map_append, first next head, ih others, granted_cons takes d chain, List.map_append]

theorem content_layoutParts_of {parts : List Part} (each : ∀ part ∈ parts, ∀ d ∈ part.chain, LaidOut takes d)
    (next : Nat) :
    (layoutParts takes next parts).map (·.content) = (granted takes (parts.flatMap (·.chain))).map (·.content) := by
  induction parts generalizing next with
  | nil => rfl
  | cons part parts ih =>
    obtain ⟨first, others⟩ := List.forall_mem_cons.mp each
    rw [layoutParts, List.map_append, content_layoutChain_of first, ih others, List.flatMap_cons, granted_append,
      List.map_append]

theorem laidOut (takes : String → Bool) (d : Descriptor) : LaidOut takes d := by
  induction d using Descriptor.parts_induction with
  | step d inside =>
    intro next attach
    cases taken : takes d.kind with
    | true =>
      rw [layout_of_taken taken, granted_of_taken taken, List.map_cons, List.map_cons,
        content_layoutParts_of (inside next), Descriptor.chains_parts]
      rfl
    | false => rw [layout_of_refused taken, granted_of_refused taken, List.map_nil, List.map_nil]

end Contents

namespace BlockMap

theorem placeProgram_of_refused {map : BlockMap} {w : Workspace} (refused : w.knows map.base.kind = false)
    (program : Program) :
    map.placeProgram w program =
      (⟨none, 0, (map.lowerProgram program).unmapped.map .unmapped ++
        [.noBase map.base.kind (.unknownKind map.base.kind)]⟩, w) := by
  have rooted : ∀ anchor ∈ Attachment.root.anchor?, anchor < w.size := nofun
  have failed : w.instantiate ⟨map.base.kind, .nil, .root⟩ = (.error (.unknownKind map.base.kind), w) := by
    rw [Workspace.instantiate_eq rooted]
    exact if_neg (Bool.eq_false_iff.mp refused)
  simp only [placeProgram, Placement.start, Workspace.host_instantiate, failed]
  rfl

/-- The blocks of a program are all accounted for. Without a root block nothing is placed. Under one, the report
counts the blocks that were added besides it, each block that was turned down has its warning, in order, and
what was inside these makes up for the rest. -/
theorem placeProgram_accounts (w : Workspace) (map : BlockMap) (program : Program) :
    (w.knows map.base.kind = false →
      map.placeProgram w program = (⟨none, 0, (map.lowerProgram program).unmapped.map .unmapped ++
        [.noBase map.base.kind (.unknownKind map.base.kind)]⟩, w)) ∧
    (w.knows map.base.kind = true →
      ∃ report added, map.placeProgram w program = (report, w.append added) ∧
        report.base = some w.size ∧ added.length = report.placed + 1 ∧
        added.map (·.content) = (map.base.kind, .nil) :: (granted w.knows (map.payload program)).map (·.content) ∧
        ((map.payload program).flatMap (·.all)).length =
          report.placed + ((denied w.knows (map.payload program)).flatMap (·.all)).length ∧
        report.warnings = (map.lowerProgram program).unmapped.map .unmapped ++
          (denied w.knows (map.payload program)).map fun d => .refused (.unknownKind d.kind)) := by
  refine ⟨fun refused => placeProgram_of_refused refused program, fun taken => ?_⟩
  have contents : (layoutParts w.knows (w.size + 1) (map.phases program w.size)).map (·.content) =
      (granted w.knows (map.payload program)).map (·.content) := by
    rw [content_layoutParts_of fun _ _ d _ => laidOut w.knows d, chains_phases]
  have count : (layoutParts w.knows (w.size + 1) (map.phases program w.size)).length =
      (granted w.knows (map.payload program)).length := by
    simpa using congrArg List.length contents
  refine ⟨_, _, placeProgram_of_taken taken program, rfl, List.length_cons, congrArg (_ :: ·) contents, ?_, ?_⟩
  · rw [length_flatMap_all w.knows, count]
  · rw [flatMap_refusals, List.map_map]
    rfl

/-- The two delays of the phases, the condition and the delay in the branch are turned down, with five operands in
them. -/
theorem placeProgram_accounts_startled :
    bare.knows builtin.base.kind = true ∧
      (denied bare.knows (builtin.payload startled)).map (·.kind) =
        ["custom_wait", "custom_wait", "logic_compare", "custom_wait"] ∧
      ∃ report added, builtin.placeProgram bare startled = (report, bare.append added) ∧ report.base = some 1 ∧
        added.length = report.placed + 1 ∧ added.map (·.kind) = ["base_setup_loop", "custom_controls_if",
          "emmi_eyes_digital", "emmi_eyes_digital"] ∧ 12 = report.placed + 9 ∧
        report.warnings = [.refused (.unknownKind "custom_wait"), .refused (.unknownKind "custom_wait"),
          .refused (.unknownKind "logic_compare"), .refused (.unknownKind "custom_wait")] := by
  have known : bare.knows builtin.base.kind = true := by decide
  obtain ⟨report, added, placed, base, length, contents, total, warnings⟩ :=
    (placeProgram_accounts bare builtin startled).2 known
  have kinds := congrArg (List.map Prod.fst) contents
  rw [List.map_map] at kinds
  exact ⟨known, rfl, report, added, placed, base, length, kinds, total, warnings⟩

end BlockMap

end RobotScript.Block
