import RobotScript.Block.Placement
import RobotScript.Proofs.Block.Descriptor

namespace RobotScript.Block

namespace Workspace

/-- The workspace with more blocks behind those that it has. -/
def append (w : Workspace) (blocks : List PlacedBlock) : Workspace := { w with blocks := w.blocks ++ blocks }

@[simp] theorem knows_append (w : Workspace) (blocks : List PlacedBlock) : (w.append blocks).knows = w.knows := rfl

@[simp] theorem size_append (w : Workspace) (blocks : List PlacedBlock) :
    (w.append blocks).size = w.size + blocks.length := List.length_append

@[simp] theorem append_nil (w : Workspace) : w.append [] = w := by
  simp only [append, List.append_nil]

theorem append_append (w : Workspace) (blocks more : List PlacedBlock) :
    (w.append blocks).append more = w.append (blocks ++ more) := by
  simp only [append, List.append_assoc]

@[simp] theorem host_instantiate (w : Workspace) (request : Request) :
    Host.instantiate w request = w.instantiate request := rfl

/-- A block that hangs on one that is there is refused only for its kind. -/
theorem instantiate_eq {w : Workspace} {request : Request}
    (anchored : ∀ anchor ∈ request.attach.anchor?, anchor < w.size) :
    w.instantiate request =
      if w.knows request.kind then
        (.ok w.size, w.append [⟨w.size, request.kind, request.fields, request.attach⟩])
      else (.error (.unknownKind request.kind), w) := by
  have present : (request.attach.anchor?.filter fun anchor => (w.block? anchor).isNone) = none := by
    refine Option.filter_eq_none_iff.mpr fun anchor member => ?_
    have inside : anchor < w.blocks.length := anchored anchor member
    simp [block?, inside]
  simp only [instantiate, present]
  rfl

/-- All that a request can do: it fails and leaves the workspace as it is, or it adds one block of a known kind that
hangs on an earlier one. -/
theorem instantiate_cases (w : Workspace) (request : Request) :
    (∃ error, w.instantiate request = (.error error, w)) ∨
      (∀ anchor ∈ request.attach.anchor?, anchor < w.size) ∧ w.knows request.kind = true ∧
        w.instantiate request = (.ok w.size, w.append [⟨w.size, request.kind, request.fields, request.attach⟩]) := by
  unfold instantiate
  split
  · rename_i known
    split
    · rename_i anchor _
      exact .inl ⟨.unknownBlock anchor, rfl⟩
    · rename_i present
      refine .inr ⟨fun anchor member => ?_, known, rfl⟩
      have found := Option.filter_eq_none_iff.mp present anchor member
      refine Nat.lt_of_not_le fun beyond => found ?_
      rw [block?, List.getElem?_eq_none beyond]
      rfl
  · exact .inl ⟨.unknownKind request.kind, rfl⟩

/-- The workspaces that asking for one block after another leads to. -/
inductive Reachable : Workspace → Prop
  | empty (known : Option (List String)) : Reachable ⟨known, []⟩
  | instantiate {w : Workspace} : Reachable w → (request : Request) → Reachable (w.instantiate request).2

/-- Blocks are numbered by their places, hang on earlier ones, and are of known kinds. -/
structure Ordered (w : Workspace) : Prop where
  numbered : ∀ index block, w.block? index = some block → block.id = index
  earlier : ∀ block ∈ w.blocks, ∀ anchor ∈ block.attach.anchor?, anchor < block.id
  known : ∀ block ∈ w.blocks, w.knows block.kind = true

theorem Reachable.ordered {w : Workspace} (reach : w.Reachable) : w.Ordered := by
  induction reach with
  | empty known => exact ⟨by simp [block?], by simp, by simp⟩
  | @instantiate w reach request ih =>
    obtain ⟨error, failed⟩ | ⟨anchored, known, placed⟩ := w.instantiate_cases request
    · rwa [failed]
    rw [placed]
    refine ⟨fun index block found => ?_, ?_, ?_⟩
    · rw [block?, append] at found
      by_cases old : index < w.blocks.length
      · exact ih.numbered index block ((List.getElem?_append_left old).symm.trans found)
      · rw [List.getElem?_append_right (Nat.not_lt.mp old), List.getElem?_singleton] at found
        split at found
        · cases found
          exact show w.blocks.length = index by omega
        · cases found
    · exact List.forall_mem_append.mpr ⟨ih.earlier, List.forall_mem_singleton.mpr anchored⟩
    · exact List.forall_mem_append.mpr ⟨ih.known, List.forall_mem_singleton.mpr known⟩

theorem Ordered.id_lt {w : Workspace} (ordered : w.Ordered) {block : PlacedBlock} (member : block ∈ w.blocks) :
    block.id < w.size := by
  obtain ⟨index, inside, found⟩ := List.mem_iff_getElem.mp member
  rw [ordered.numbered index block (List.getElem?_eq_some_iff.mpr ⟨inside, found⟩)]
  exact inside

theorem Reachable.anchored {w : Workspace} (reach : w.Reachable) :
    ∀ block ∈ w.blocks, ∀ anchor ∈ block.attach.anchor?, anchor < w.size := fun block member anchor isAnchor =>
  Nat.lt_trans (reach.ordered.earlier block member anchor isAnchor) (reach.ordered.id_lt member)

end Workspace

section Layout

variable (takes : String → Bool)

mutual

/-- The blocks that a descriptor turns into, numbered from `next` on, where only some kinds are taken. -/
def layout (next : Nat) (attach : Attachment) : Descriptor → List PlacedBlock
  | .mk kind fields inputs statements =>
    if takes kind then
      let inner := layoutInputs (next + 1) next inputs
      ⟨next, kind, fields, attach⟩ :: (inner ++ layoutStatements (next + 1 + inner.length) next statements)
    else []

def layoutChain (next : Nat) (head : Attachment) : List Descriptor → List PlacedBlock
  | [] => []
  | block :: chain =>
    let first := layout next head block
    first ++ layoutChain (next + first.length) (if takes block.kind then .next next else head) chain

def layoutInputs (next parent : Nat) {bound : Option String} : Ascending Descriptor bound → List PlacedBlock
  | .nil => []
  | .cons name _ child inputs =>
    let first := layout next (.input parent name) child
    first ++ layoutInputs (next + first.length) parent inputs

def layoutStatements (next parent : Nat) {bound : Option String} :
    Ascending (List Descriptor) bound → List PlacedBlock
  | .nil => []
  | .cons name _ chain statements =>
    let first := layoutChain next (.statement parent name) chain
    first ++ layoutStatements (next + first.length) parent statements

end

/-- The blocks of several chains, one behind the other. -/
def layoutParts (next : Nat) : List Part → List PlacedBlock
  | [] => []
  | part :: parts =>
    let first := layoutChain takes next part.head part.chain
    first ++ layoutParts (next + first.length) parts

theorem layoutParts_append (next : Nat) (parts more : List Part) :
    layoutParts takes next (parts ++ more) =
      layoutParts takes next parts ++ layoutParts takes (next + (layoutParts takes next parts).length) more := by
  induction parts generalizing next with
  | nil => rfl
  | cons part parts ih => simp only [List.cons_append, layoutParts, ih, List.append_assoc, List.length_append,
      Nat.add_assoc]

theorem layoutInputs_eq (next parent : Nat) {bound : Option String} (inputs : Ascending Descriptor bound) :
    layoutInputs takes next parent inputs =
      layoutParts takes next (inputs.toList.map fun entry => ⟨entry.1, .input parent entry.1, [entry.2]⟩) := by
  induction inputs generalizing next with
  | nil => rfl
  | cons name _ child inputs ih =>
    simp only [layoutInputs, Ascending.toList, List.map_cons, layoutParts, layoutChain, List.append_nil, ih]

theorem layoutStatements_eq (next parent : Nat) {bound : Option String}
    (statements : Ascending (List Descriptor) bound) :
    layoutStatements takes next parent statements =
      layoutParts takes next (statements.toList.map fun entry => ⟨entry.1, .statement parent entry.1, entry.2⟩) := by
  induction statements generalizing next with
  | nil => rfl
  | cons name _ chain statements ih =>
    simp only [layoutStatements, Ascending.toList, List.map_cons, layoutParts, ih]

variable {takes}

theorem layout_of_taken {d : Descriptor} (taken : takes d.kind = true) (next : Nat) (attach : Attachment) :
    layout takes next attach d =
      ⟨next, d.kind, d.fields, attach⟩ :: layoutParts takes (next + 1) (d.parts next) := by
  obtain ⟨kind, fields, inputs, statements⟩ := d
  have known : takes kind = true := taken
  simp only [layout, known, if_true, layoutInputs_eq, layoutStatements_eq, Descriptor.parts, layoutParts_append]
  rfl

theorem layout_of_refused {d : Descriptor} (refused : takes d.kind = false) (next : Nat) (attach : Attachment) :
    layout takes next attach d = [] := by
  obtain ⟨kind, fields, inputs, statements⟩ := d
  have unknown : takes kind = false := refused
  simp only [layout, unknown, Bool.false_eq_true, if_false]

theorem layoutChain_of_taken {d : Descriptor} (taken : takes d.kind = true) (next : Nat) (head : Attachment)
    (chain : List Descriptor) :
    layoutChain takes next head (d :: chain) =
      layout takes next head d ++
        layoutChain takes (next + (layout takes next head d).length) (.next next) chain := by
  simp only [layoutChain, taken, if_true]

theorem layoutChain_of_refused {d : Descriptor} (refused : takes d.kind = false) (next : Nat) (head : Attachment)
    (chain : List Descriptor) : layoutChain takes next head (d :: chain) = layoutChain takes next head chain := by
  simp only [layoutChain, layout_of_refused refused, refused, Bool.false_eq_true, if_false, List.nil_append,
    List.length_nil, Nat.add_zero]

end Layout

section Refusals

variable (takes : String → Bool)

mutual

/-- The answers to the blocks of a descriptor that are not taken. What is inside one of these is not asked for. -/
def refusals : Descriptor → List PlaceError
  | .mk kind _ inputs statements =>
    if takes kind then refusalsInputs inputs ++ refusalsStatements statements else [.unknownKind kind]

def refusalsChain : List Descriptor → List PlaceError
  | [] => []
  | block :: chain => refusals block ++ refusalsChain chain

def refusalsInputs {bound : Option String} : Ascending Descriptor bound → List PlaceError
  | .nil => []
  | .cons _ _ child inputs => refusals child ++ refusalsInputs inputs

def refusalsStatements {bound : Option String} : Ascending (List Descriptor) bound → List PlaceError
  | .nil => []
  | .cons _ _ chain statements => refusalsChain chain ++ refusalsStatements statements

end

theorem refusalsChain_eq_flatMap (chain : List Descriptor) :
    refusalsChain takes chain = chain.flatMap (refusals takes) := by
  induction chain with
  | nil => rfl
  | cons d chain ih => rw [refusalsChain, ih, List.flatMap_cons]

theorem refusalsInputs_eq_flatMap {bound : Option String} (inputs : Ascending Descriptor bound) :
    refusalsInputs takes inputs = (inputs.toList.map (·.2)).flatMap (refusals takes) := by
  induction inputs with
  | nil => rfl
  | cons name _ child inputs ih => rw [refusalsInputs, ih, Ascending.toList, List.map_cons, List.flatMap_cons]

theorem refusalsStatements_eq_flatMap {bound : Option String} (statements : Ascending (List Descriptor) bound) :
    refusalsStatements takes statements = (statements.toList.flatMap (·.2)).flatMap (refusals takes) := by
  induction statements with
  | nil => rfl
  | cons name _ chain statements ih =>
    rw [refusalsStatements, ih, refusalsChain_eq_flatMap, Ascending.toList, List.flatMap_cons, List.flatMap_append]

variable {takes} {d : Descriptor}

theorem refusals_of_taken (taken : takes d.kind = true) : refusals takes d = d.children.flatMap (refusals takes) := by
  obtain ⟨kind, fields, inputs, statements⟩ := d
  have known : takes kind = true := taken
  rw [refusals, if_pos known, refusalsInputs_eq_flatMap, refusalsStatements_eq_flatMap, ← List.flatMap_append]
  rfl

theorem refusals_of_refused (refused : takes d.kind = false) : refusals takes d = [.unknownKind d.kind] := by
  obtain ⟨kind, fields, inputs, statements⟩ := d
  have unknown : takes kind = false := refused
  simp only [refusals, unknown, Bool.false_eq_true, if_false]
  rfl

end Refusals

namespace Placement

/-- A placement after blocks were placed behind the others and some were refused. -/
def extend (p : Placement Workspace) (blocks : List PlacedBlock) (errors : List PlaceError) : Placement Workspace :=
  ⟨p.host.append blocks, p.placed + blocks.length, p.warnings ++ errors.map .refused⟩

@[simp] theorem host_extend (p : Placement Workspace) (blocks : List PlacedBlock) (errors : List PlaceError) :
    (p.extend blocks errors).host = p.host.append blocks := rfl

@[simp] theorem extend_nil (p : Placement Workspace) : p.extend [] [] = p := by
  simp [extend]

theorem extend_extend (p : Placement Workspace) (blocks more : List PlacedBlock) (errors others : List PlaceError) :
    (p.extend blocks errors).extend more others = p.extend (blocks ++ more) (errors ++ others) := by
  simp [extend, Workspace.append_append, Nat.add_assoc]

/-- Places the chains of several parts, one after the other. -/
def putParts (p : Placement Workspace) (parts : List Part) : Placement Workspace :=
  parts.foldl (fun p part => p.putChain part.head part.chain) p

theorem putInputs_eq (p : Placement Workspace) (parent : Nat) {bound : Option String}
    (inputs : Ascending Descriptor bound) :
    p.putInputs parent inputs =
      p.putParts (inputs.toList.map fun entry => ⟨entry.1, .input parent entry.1, [entry.2]⟩) := by
  induction inputs generalizing p with
  | nil => rfl
  | cons name _ child inputs ih => exact ih _

theorem putStatements_eq (p : Placement Workspace) (parent : Nat) {bound : Option String}
    (statements : Ascending (List Descriptor) bound) :
    p.putStatements parent statements =
      p.putParts (statements.toList.map fun entry => ⟨entry.1, .statement parent entry.1, entry.2⟩) := by
  induction statements generalizing p with
  | nil => rfl
  | cons name _ chain statements ih => exact ih _

variable {p : Placement Workspace} {attach : Attachment}

theorem put_of_taken {d : Descriptor} (anchored : ∀ anchor ∈ attach.anchor?, anchor < p.host.size)
    (taken : p.host.knows d.kind = true) :
    p.put attach d = (some p.host.size,
      (p.extend [⟨p.host.size, d.kind, d.fields, attach⟩] []).putParts (d.parts p.host.size)) := by
  obtain ⟨kind, fields, inputs, statements⟩ := d
  have placed : p.host.instantiate ⟨kind, fields, attach⟩ =
      (.ok p.host.size, p.host.append [⟨p.host.size, kind, fields, attach⟩]) := by
    rw [Workspace.instantiate_eq anchored]
    exact if_pos taken
  simp only [put, Workspace.host_instantiate, placed, putInputs_eq, putStatements_eq, putParts, Descriptor.parts,
    List.foldl_append, extend, List.map_nil, List.append_nil]
  rfl

theorem put_of_refused {d : Descriptor} (anchored : ∀ anchor ∈ attach.anchor?, anchor < p.host.size)
    (refused : p.host.knows d.kind = false) :
    p.put attach d = (none, p.extend [] [.unknownKind d.kind]) := by
  obtain ⟨kind, fields, inputs, statements⟩ := d
  have failed : p.host.instantiate ⟨kind, fields, attach⟩ = (.error (.unknownKind kind), p.host) := by
    rw [Workspace.instantiate_eq anchored]
    exact if_neg (Bool.eq_false_iff.mp refused)
  simp only [put, Workspace.host_instantiate, failed, extend, Workspace.append_nil]
  rfl

/-- What placing a descriptor does, wherever it is placed. -/
def Lays (d : Descriptor) : Prop :=
  ∀ (p : Placement Workspace) (attach : Attachment), (∀ anchor ∈ attach.anchor?, anchor < p.host.size) →
    p.put attach d = (if p.host.knows d.kind then some p.host.size else none,
      p.extend (layout p.host.knows p.host.size attach d) (refusals p.host.knows d))

theorem putChain_of_lays {chain : List Descriptor} (each : ∀ d ∈ chain, Lays d)
    (anchored : ∀ anchor ∈ attach.anchor?, anchor < p.host.size) :
    p.putChain attach chain = p.extend (layoutChain p.host.knows p.host.size attach chain)
      (chain.flatMap (refusals p.host.knows)) := by
  induction chain generalizing p attach with
  | nil => simp only [putChain, layoutChain, List.flatMap_nil, extend_nil]
  | cons block chain ih =>
    obtain ⟨first, others⟩ := List.forall_mem_cons.mp each
    simp only [putChain, first p attach anchored, layoutChain, List.flatMap_cons]
    -- A block that is taken is the anchor of the next one, so the rest hangs on a block that is there.
    cases taken : p.host.knows block.kind with
    | true =>
      have behind : ∀ anchor ∈ (Attachment.next p.host.size).anchor?, anchor <
          (p.extend (layout p.host.knows p.host.size attach block) (refusals p.host.knows block)).host.size := by
        rintro _ ⟨⟩
        simp [layout_of_taken taken]
      simp only [if_true, Option.map_some, Option.getD_some, ih others behind, extend_extend, host_extend,
        Workspace.knows_append, Workspace.size_append]
    | false =>
      have still : ∀ anchor ∈ attach.anchor?, anchor <
          (p.extend (layout p.host.knows p.host.size attach block) (refusals p.host.knows block)).host.size :=
        fun anchor member =>
        Nat.lt_of_lt_of_le (anchored anchor member) (by simp)
      simp only [Bool.false_eq_true, if_false, Option.map_none, Option.getD_none, ih others still, extend_extend,
        host_extend, Workspace.knows_append, Workspace.size_append]

theorem putParts_of_lays {parts : List Part} (each : ∀ part ∈ parts, ∀ d ∈ part.chain, Lays d)
    (anchored : ∀ part ∈ parts, ∀ anchor ∈ part.head.anchor?, anchor < p.host.size) :
    p.putParts parts = p.extend (layoutParts p.host.knows p.host.size parts)
      ((parts.flatMap (·.chain)).flatMap (refusals p.host.knows)) := by
  induction parts generalizing p with
  | nil => simp only [putParts, List.foldl_nil, layoutParts, List.flatMap_nil, extend_nil]
  | cons part parts ih =>
    obtain ⟨first, others⟩ := List.forall_mem_cons.mp each
    obtain ⟨headAnchored, othersAnchored⟩ := List.forall_mem_cons.mp anchored
    have placed := putChain_of_lays first headAnchored
    calc p.putParts (part :: parts)
      _ = (p.putChain part.head part.chain).putParts parts := rfl
      _ = _ := by
        rw [placed, ih others (fun other member anchor isAnchor =>
          Nat.lt_of_lt_of_le (othersAnchored other member anchor isAnchor) (by simp)), extend_extend]
        simp only [host_extend, Workspace.knows_append, Workspace.size_append, layoutParts, List.flatMap_cons,
          List.flatMap_append]

theorem lays (d : Descriptor) : Lays d := by
  induction d using Descriptor.parts_induction with
  | step d inside =>
    intro p attach anchored
    cases taken : p.host.knows d.kind with
    | true =>
      have anchoredParts : ∀ part ∈ d.parts p.host.size, ∀ anchor ∈ part.head.anchor?, anchor <
          (p.extend [⟨p.host.size, d.kind, d.fields, attach⟩] []).host.size := by
        intro part member anchor isAnchor
        rw [(Descriptor.belongs_of_mem_parts member).anchor] at isAnchor
        cases isAnchor
        simp
      rw [put_of_taken anchored taken, putParts_of_lays (inside p.host.size) anchoredParts, extend_extend,
        layout_of_taken taken, refusals_of_taken taken, Descriptor.chains_parts]
      simp only [if_true, host_extend, Workspace.knows_append, Workspace.size_append, List.length_cons,
        List.length_nil, List.cons_append, List.nil_append]
    | false =>
      rw [put_of_refused anchored taken, layout_of_refused taken, refusals_of_refused taken]
      simp only [Bool.false_eq_true, if_false]

end Placement

namespace BlockMap

/-- The two places in the root block of a program. -/
def phases (map : BlockMap) (program : Program) (base : Nat) : List Part :=
  [⟨map.base.setupInput, .statement base map.base.setupInput, (map.lowerProgram program).setup⟩,
    ⟨map.base.loopInput, .statement base map.base.loopInput, (map.lowerProgram program).loop⟩]

theorem belongs_of_mem_phases {map : BlockMap} {program : Program} {base : Nat} {part : Part}
    (member : part ∈ map.phases program base) : part.Belongs base := by
  simp only [phases, List.mem_cons, List.not_mem_nil, or_false] at member
  rcases member with rfl | rfl <;> exact .inr rfl

/-- The blocks of both phases of a program, the root block apart. -/
def payload (map : BlockMap) (program : Program) : List Descriptor :=
  (map.lowerProgram program).setup ++ (map.lowerProgram program).loop

theorem chains_phases (map : BlockMap) (program : Program) (base : Nat) :
    (map.phases program base).flatMap (·.chain) = map.payload program := by
  simp [phases, payload]

/-- A program is laid out as a root block, which is not counted, with its two phases behind it. -/
theorem placeProgram_of_taken {map : BlockMap} {w : Workspace} (taken : w.knows map.base.kind = true)
    (program : Program) :
    map.placeProgram w program =
      (⟨some w.size, (layoutParts w.knows (w.size + 1) (map.phases program w.size)).length,
        (map.lowerProgram program).unmapped.map .unmapped ++
          ((map.payload program).flatMap (refusals w.knows)).map .refused⟩,
        w.append (⟨w.size, map.base.kind, .nil, .root⟩ ::
          layoutParts w.knows (w.size + 1) (map.phases program w.size))) := by
  let start : Placement Workspace :=
    ⟨w.append [⟨w.size, map.base.kind, .nil, .root⟩], 0, (map.lowerProgram program).unmapped.map .unmapped⟩
  have anchored : ∀ part ∈ map.phases program w.size, ∀ anchor ∈ part.head.anchor?, anchor < start.host.size := by
    intro part member anchor isAnchor
    rw [(belongs_of_mem_phases member).anchor] at isAnchor
    cases isAnchor
    simp [start]
  have placed : w.instantiate ⟨map.base.kind, .nil, .root⟩ = (.ok w.size, start.host) := by
    have rooted : ∀ anchor ∈ Attachment.root.anchor?, anchor < w.size := nofun
    rw [Workspace.instantiate_eq rooted]
    exact if_pos taken
  calc map.placeProgram w program
    _ = (start.putParts (map.phases program w.size)).finish (some w.size) := by
      simp only [placeProgram, Placement.start, Workspace.host_instantiate, placed]
      rfl
    _ = _ := by
      rw [Placement.putParts_of_lays (fun _ _ d _ => Placement.lays d) anchored, chains_phases]
      simp only [start, Workspace.knows_append, Workspace.size_append, Placement.finish, Placement.extend,
        Workspace.append_append, List.length_cons, List.length_nil, Nat.zero_add, List.cons_append, List.nil_append]

end BlockMap

end RobotScript.Block
