import Mathlib.Data.List.Nodup
import RobotScript.Proofs.Block.Layout

namespace RobotScript.Block

/-- The block that an attachment refers to has one of the numbers from `low` up to `high`. -/
def Attachment.Between (low high : Nat) (attach : Attachment) : Prop :=
  ∃ anchor ∈ attach.anchor?, low ≤ anchor ∧ anchor < high

theorem Attachment.Between.mono {low high low' high' : Nat} {attach : Attachment} (between : attach.Between low high)
    (down : low' ≤ low) (up : high ≤ high') : attach.Between low' high' := by
  obtain ⟨anchor, isAnchor, above, below⟩ := between
  exact ⟨anchor, isAnchor, Nat.le_trans down above, Nat.lt_of_lt_of_le below up⟩

theorem Attachment.Between.not_between {low high low' high' : Nat} {attach : Attachment}
    (between : attach.Between low high) (disjoint : high ≤ low' ∨ high' ≤ low) : ¬attach.Between low' high' := by
  obtain ⟨anchor, isAnchor, above, below⟩ := between
  rintro ⟨same, isSame, above', below'⟩
  cases Option.mem_unique isAnchor isSame
  omega

theorem Attachment.not_between_of_below {low high : Nat} {attach : Attachment}
    (below : ∀ anchor ∈ attach.anchor?, anchor < low) : ¬attach.Between low high :=
  fun ⟨anchor, isAnchor, above, _⟩ => Nat.not_le_of_lt (below anchor isAnchor) above

/-- The blocks that belong under a name in some places. -/
def Part.under (parts : List Part) (name : String) : List Descriptor :=
  (parts.filter (·.name = name)).flatMap (·.chain)

/-- The places are all of one block, which tells them apart by their names. -/
structure Fitted (id : Nat) (parts : List Part) : Prop where
  belongs : ∀ part ∈ parts, part.Belongs id
  names : (parts.map (·.name)).Nodup

namespace Fitted

variable {id : Nat} {parts before after : List Part} {part : Part}

theorem apart (fitted : Fitted id parts) (split : parts = before ++ part :: after) :
    ∀ other ∈ before ++ after, other.name ≠ part.name := by
  have names := fitted.names
  rw [split, List.map_append, List.map_cons, List.nodup_middle, List.nodup_cons, ← List.map_append] at names
  exact fun other member same => names.1 (List.mem_map.mpr ⟨other, member, same⟩)

theorem heads (fitted : Fitted id parts) (split : parts = before ++ part :: after) :
    ∀ other ∈ before ++ after, other.head ≠ part.head := by
  intro other member same
  have isPart : other ∈ parts :=
    split ▸ ((List.Sublist.refl before).append (List.sublist_cons_self _ _)).subset member
  have head := ((fitted.belongs part (by simp [split])).head_eq_iff part.name).mpr rfl
  exact fitted.apart split other member (((fitted.belongs other isPart).head_eq_iff part.name).mp (same ▸ head))

theorem under_eq (fitted : Fitted id parts) (split : parts = before ++ part :: after) :
    Part.under parts part.name = part.chain := by
  have others : (before ++ after).filter (·.name = part.name) = [] :=
    List.filter_eq_nil_iff.mpr fun other member => by simpa using fitted.apart split other member
  rw [List.filter_append, List.append_eq_nil_iff] at others
  simp [Part.under, split, others.1, others.2]

end Fitted

theorem Part.under_of_unnamed {parts : List Part} {name : String} (unnamed : ∀ part ∈ parts, part.name ≠ name) :
    under parts name = [] := by
  have none : parts.filter (·.name = name) = [] :=
    List.filter_eq_nil_iff.mpr fun part member => by simpa using unnamed part member
  rw [under, none, List.flatMap_nil]

namespace Descriptor

/-- The blocks that belong under a name, whether it is one of a value or of a statement input. -/
def inside (d : Descriptor) (name : String) : List Descriptor :=
  (d.inputs.toList.filter (·.1 = name)).map (·.2) ++ (d.statements.toList.filter (·.1 = name)).flatMap (·.2)

theorem inside_eq (d : Descriptor) (id : Nat) (name : String) : d.inside name = Part.under (d.parts id) name := by
  simp only [inside, Part.under, parts, List.filter_append, List.flatMap_append, List.filter_map, List.flatMap_map,
    Function.comp_def, ← List.map_eq_flatMap]

/-- No name stands for a value and for a statement input, in the block and in all blocks inside it. -/
inductive Distinct : Descriptor → Prop
  | mk {d : Descriptor} : (∀ input ∈ d.inputs.toList, ∀ statement ∈ d.statements.toList, input.1 ≠ statement.1) →
    (∀ child ∈ d.children, Distinct child) → Distinct d

theorem Distinct.fitted {d : Descriptor} (distinct : d.Distinct) (id : Nat) : Fitted id (d.parts id) := by
  obtain ⟨apart, -⟩ := distinct
  refine ⟨fun part member => belongs_of_mem_parts member, ?_⟩
  have names : (d.inputs.toList.map (·.1) ++ d.statements.toList.map (·.1)).Nodup := by
    refine List.nodup_append.mpr ⟨d.inputs.nodup_keys, d.statements.nodup_keys, ?_⟩
    exact List.forall_mem_map.mpr fun input isInput => List.forall_mem_map.mpr (apart input isInput)
  simpa [parts, Function.comp_def] using names

end Descriptor

/-- A placed block stands for a descriptor: it has its kind and its fields, and under each name there are the
blocks that belong there, in order, without those of a kind that the workspace does not take. -/
inductive Shows (w : Workspace) : PlacedBlock → Descriptor → Prop
  | mk {block : PlacedBlock} {d : Descriptor} : block.kind = d.kind → block.fields = d.fields →
    (∀ name, List.Forall₂ (Shows w) (w.children block.id name) ((d.inside name).filter (w.knows ·.kind))) →
    Shows w block d

section Confinement

variable {takes : String → Bool}

theorem mem_layout_self {d : Descriptor} (taken : takes d.kind = true) (next : Nat) (attach : Attachment) :
    ⟨next, d.kind, d.fields, attach⟩ ∈ layout takes next attach d := by
  rw [layout_of_taken taken]
  exact List.mem_cons_self

theorem length_layout_pos {d : Descriptor} (taken : takes d.kind = true) (next : Nat) (attach : Attachment) :
    0 < (layout takes next attach d).length :=
  List.length_pos_of_mem (mem_layout_self taken next attach)

/-- The blocks of a descriptor are its own block and blocks that refer to each other, none of which stands
behind it. -/
def Confined (takes : String → Bool) (d : Descriptor) : Prop :=
  ∀ next attach, ∀ block ∈ layout takes next attach d,
    block = ⟨next, d.kind, d.fields, attach⟩ ∨
      block.attach.Between next (next + (layout takes next attach d).length) ∧ block.attach ≠ .next next

theorem attach_of_mem_layoutChain_of {chain : List Descriptor} (each : ∀ d ∈ chain, Confined takes d) {next : Nat}
    {head : Attachment} {block : PlacedBlock} (member : block ∈ layoutChain takes next head chain) :
    block.attach = head ∨ block.attach.Between next (next + (layoutChain takes next head chain).length) := by
  induction chain generalizing next head with
  | nil => exact absurd member List.not_mem_nil
  | cons d chain ih =>
    obtain ⟨first, others⟩ := List.forall_mem_cons.mp each
    cases taken : takes d.kind with
    | false =>
      rw [layoutChain_of_refused taken] at member ⊢
      exact ih others member
    | true =>
      rw [layoutChain_of_taken taken] at member ⊢
      rw [List.length_append]
      rcases List.mem_append.mp member with inFirst | inRest
      · rcases first next head block inFirst with rfl | ⟨between, -⟩
        · exact .inl rfl
        · exact .inr (between.mono (Nat.le_refl _) (by omega))
      · refine .inr ?_
        rcases ih others inRest with behind | between
        · have positive := length_layout_pos taken next head
          exact ⟨next, by rw [behind]; rfl, Nat.le_refl _, by omega⟩
        · exact between.mono (by omega) (by omega)

theorem attach_of_mem_layoutParts_of {parts : List Part} (each : ∀ part ∈ parts, ∀ d ∈ part.chain, Confined takes d)
    {next : Nat} {block : PlacedBlock} (member : block ∈ layoutParts takes next parts) :
    (∃ part ∈ parts, block.attach = part.head) ∨
      block.attach.Between next (next + (layoutParts takes next parts).length) := by
  induction parts generalizing next with
  | nil => exact absurd member List.not_mem_nil
  | cons part parts ih =>
    obtain ⟨first, others⟩ := List.forall_mem_cons.mp each
    rw [layoutParts] at member ⊢
    rw [List.length_append]
    rcases List.mem_append.mp member with inFirst | inRest
    · rcases attach_of_mem_layoutChain_of first inFirst with atHead | between
      · exact .inl ⟨part, List.mem_cons_self, atHead⟩
      · exact .inr (between.mono (Nat.le_refl _) (by omega))
    · rcases ih others inRest with ⟨other, isPart, atHead⟩ | between
      · exact .inl ⟨other, List.mem_cons_of_mem _ isPart, atHead⟩
      · exact .inr (between.mono (by omega) (by omega))

theorem confined (d : Descriptor) : Confined takes d := by
  induction d using Descriptor.parts_induction with
  | step d inside =>
    intro next attach block member
    cases taken : takes d.kind with
    | false =>
      rw [layout_of_refused taken] at member
      exact absurd member List.not_mem_nil
    | true =>
      rw [layout_of_taken taken] at member ⊢
      refine (List.mem_cons.mp member).imp_right fun inner => ?_
      rw [List.length_cons]
      rcases attach_of_mem_layoutParts_of (inside next) inner with ⟨part, isPart, atHead⟩ | between
      · have belongs := Descriptor.belongs_of_mem_parts isPart
        exact ⟨⟨next, atHead ▸ belongs.anchor, Nat.le_refl _, by omega⟩, atHead ▸ belongs.head_ne_next next⟩
      · refine ⟨between.mono (by omega) (by omega), fun behind => ?_⟩
        obtain ⟨anchor, isAnchor, above, -⟩ := between
        rw [behind] at isAnchor
        cases isAnchor
        omega

theorem attach_of_mem_layoutChain {chain : List Descriptor} {next : Nat} {head : Attachment} {block : PlacedBlock}
    (member : block ∈ layoutChain takes next head chain) :
    block.attach = head ∨ block.attach.Between next (next + (layoutChain takes next head chain).length) :=
  attach_of_mem_layoutChain_of (fun d _ => confined d) member

theorem attach_of_mem_layoutParts {parts : List Part} {next : Nat} {block : PlacedBlock}
    (member : block ∈ layoutParts takes next parts) :
    (∃ part ∈ parts, block.attach = part.head) ∨
      block.attach.Between next (next + (layoutParts takes next parts).length) :=
  attach_of_mem_layoutParts_of (fun _ _ d _ => confined d) member

theorem length_filter_le_layoutChain (next : Nat) (head : Attachment) (chain : List Descriptor) :
    (chain.filter (takes ·.kind)).length ≤ (layoutChain takes next head chain).length := by
  induction chain generalizing next head with
  | nil => exact Nat.le_refl _
  | cons d chain ih =>
    cases taken : takes d.kind with
    | true =>
      have positive := length_layout_pos taken next head
      have rest := ih (next + (layout takes next head d).length) (.next next)
      rw [List.filter_cons_of_pos (by simpa using taken), layoutChain_of_taken taken, List.length_cons,
        List.length_append]
      omega
    | false =>
      rw [List.filter_cons_of_neg (by simp [taken]), layoutChain_of_refused taken]
      exact ih next head

/-- Of the chains in the parts of a block, the one of a part is told from all others by its attachments. -/
theorem mem_layoutParts_cases {parts more : List Part} {part : Part} {id next start : Nat} (later : id < next)
    (starts : next + (layoutParts takes next parts).length = start)
    (anchored : ∀ other ∈ parts ++ part :: more, other.head.anchor? = some id)
    (apart : ∀ other ∈ parts ++ more, other.head ≠ part.head) {block : PlacedBlock}
    (member : block ∈ layoutParts takes next (parts ++ part :: more)) :
    block ∈ layoutChain takes start part.head part.chain ∨
      block.attach ≠ part.head ∧
        ¬block.attach.Between start (start + (layoutChain takes start part.head part.chain).length) := by
  have below : ∀ other ∈ parts ++ part :: more, ∀ anchor ∈ other.head.anchor?, anchor < next := by
    intro other isPart anchor isAnchor
    rw [anchored other isPart, Option.mem_some_iff] at isAnchor
    omega
  have ofHead : ∀ other ∈ parts ++ more, block.attach = other.head → block.attach ≠ part.head ∧
      ¬block.attach.Between start (start + (layoutChain takes start part.head part.chain).length) := by
    intro other isPart atHead
    refine ⟨fun same => apart other isPart (atHead.symm.trans same), fun between => ?_⟩
    rw [atHead] at between
    exact Attachment.not_between_of_below (below other (by simp at isPart ⊢; tauto))
      (between.mono (by omega) (Nat.le_refl _))
  have notHead : ∀ low high, next ≤ low → block.attach.Between low high → block.attach ≠ part.head := by
    intro low high after between same
    rw [same] at between
    exact Attachment.not_between_of_below (below part (by simp)) (between.mono after (Nat.le_refl _))
  rw [layoutParts_append, starts, layoutParts] at member
  rcases List.mem_append.mp member with before | others
  · refine .inr ?_
    rcases attach_of_mem_layoutParts before with ⟨other, isPart, atHead⟩ | between
    · exact ofHead other (List.mem_append_left _ isPart) atHead
    · exact ⟨notHead _ _ (Nat.le_refl _) between, between.not_between (.inl (by omega))⟩
  · rcases List.mem_append.mp others with inPart | after
    · exact .inl inPart
    · refine .inr ?_
      rcases attach_of_mem_layoutParts after with ⟨other, isPart, atHead⟩ | between
      · exact ofHead other (List.mem_append_right _ isPart) atHead
      · exact ⟨notHead _ _ (by omega) between, between.not_between (.inr (Nat.le_refl _))⟩

end Confinement

namespace Workspace

/-- The blocks that follow one another from an attachment on, where each is the only one at its place. -/
inductive Linked (w : Workspace) : Attachment → List PlacedBlock → Prop
  | nil {head : Attachment} : (∀ block ∈ w.blocks, block.attach ≠ head) → Linked w head []
  | cons {head : Attachment} {block : PlacedBlock} {chain : List PlacedBlock} : block ∈ w.blocks →
    (∀ other ∈ w.blocks, other.attach = head ↔ other = block) → Linked w (.next block.id) chain →
    Linked w head (block :: chain)

theorem find?_of_only {blocks : List PlacedBlock} {p : PlacedBlock → Bool} {block : PlacedBlock}
    (member : block ∈ blocks) (only : ∀ other ∈ blocks, p other = true ↔ other = block) :
    blocks.find? p = some block := by
  cases found : blocks.find? p with
  | none =>
    have passed := List.find?_eq_none.mp found block member
    exact absurd ((only block member).mpr rfl) passed
  | some other =>
    have satisfied := List.find?_some found
    rw [(only other (List.mem_of_find?_eq_some found)).mp satisfied]

theorem Linked.chainFrom_eq {w : Workspace} {head : Attachment} {block : PlacedBlock} {chain : List PlacedBlock}
    (linked : w.Linked head (block :: chain)) {count : Nat} (enough : chain.length < count) :
    w.chainFrom count block = block :: chain := by
  induction chain generalizing head block count with
  | nil =>
    obtain _ | ⟨_, _, last⟩ := linked
    obtain _ | count := count
    · omega
    cases last with
    | nil free =>
      have missing : w.blocks.find? (·.attach = .next block.id) = none :=
        List.find?_eq_none.mpr fun other member => by simpa using free other member
      simp only [chainFrom, missing]
  | cons second chain ih =>
    obtain _ | ⟨_, _, rest⟩ := linked
    obtain _ | count := count
    · omega
    rw [List.length_cons] at enough
    cases rest with
    | cons member only further =>
      have found : w.blocks.find? (·.attach = .next block.id) = some second :=
        find?_of_only member fun other isOther => by simpa using only other isOther
      simp only [chainFrom, found, ih (.cons member only further) (by omega : chain.length < count)]

theorem children_eq_nil {w : Workspace} {parent : Nat} {name : String}
    (free : ∀ block ∈ w.blocks, ¬isHeadOf parent name block = true) : w.children parent name = [] := by
  simp only [children, List.find?_eq_none.mpr free]

theorem Linked.children_eq {w : Workspace} {head : Attachment} {chain : List PlacedBlock}
    (linked : w.Linked head chain) (short : chain.length ≤ w.size) {parent : Nat} {name : String}
    (heads : ∀ block ∈ w.blocks, isHeadOf parent name block = true ↔ block.attach = head) :
    w.children parent name = chain := by
  cases linked with
  | nil free => exact children_eq_nil fun block member => (heads block member).not.mpr (free block member)
  | @cons _ block chain member only rest =>
    have found : w.blocks.find? (isHeadOf parent name) = some block :=
      find?_of_only member fun other isOther => (heads other isOther).trans (only other isOther)
    simp only [children, found, Linked.chainFrom_eq (.cons member only rest) short]

end Workspace

/-- A region of a workspace to which no other block refers, other than by standing behind its first. -/
structure Hosts (w : Workspace) (next : Nat) (region : List PlacedBlock) : Prop where
  within : region.Sublist w.blocks
  apart : ∀ block ∈ w.blocks, block ∈ region ∨ block.attach = .next next ∨
    ¬block.attach.Between next (next + region.length)

/-- A region of a workspace to which no other block refers, and at the head of which there is no other. -/
structure Isolates (w : Workspace) (head : Attachment) (next : Nat) (region : List PlacedBlock) : Prop where
  within : region.Sublist w.blocks
  apart : ∀ block ∈ w.blocks, block ∈ region ∨ block.attach ≠ head ∧
    ¬block.attach.Between next (next + region.length)

namespace Isolates

variable {w : Workspace} {head : Attachment} {next : Nat} {d : Descriptor} {chain : List Descriptor}

theorem first (isolated : Isolates w head next (layoutChain w.knows next head (d :: chain)))
    (taken : w.knows d.kind = true) : Hosts w next (layout w.knows next head d) := by
  obtain ⟨within, apart⟩ := isolated
  rw [layoutChain_of_taken taken] at within apart
  rw [List.length_append] at apart
  refine ⟨(List.sublist_append_left _ _).trans within, fun block member => ?_⟩
  rcases apart block member with inside | ⟨-, outside⟩
  · refine (List.mem_append.mp inside).imp_right fun inRest => ?_
    exact (attach_of_mem_layoutChain inRest).imp_right fun between => between.not_between (.inr (Nat.le_refl _))
  · exact .inr (.inr fun between => outside (between.mono (Nat.le_refl _) (by omega)))

theorem rest (isolated : Isolates w head next (layoutChain w.knows next head (d :: chain)))
    (taken : w.knows d.kind = true) (below : ∀ anchor ∈ head.anchor?, anchor < next) :
    Isolates w (.next next) (next + (layout w.knows next head d).length)
      (layoutChain w.knows (next + (layout w.knows next head d).length) (.next next) chain) := by
  obtain ⟨within, apart⟩ := isolated
  have positive := length_layout_pos taken next head
  rw [layoutChain_of_taken taken] at within apart
  rw [List.length_append] at apart
  refine ⟨(List.sublist_append_right _ _).trans within, fun block member => ?_⟩
  -- The head of the rest is the block before it: nothing else in its region stands behind it, and nothing
  -- outside refers to it.
  rcases apart block member with inside | ⟨-, outside⟩
  · refine (List.mem_append.mp inside).symm.imp_right fun inFirst => ?_
    rcases confined d next head block inFirst with rfl | ⟨between, notBehind⟩
    · refine ⟨?_, fun between => Attachment.not_between_of_below below (between.mono (by omega) (Nat.le_refl _))⟩
      rintro rfl
      exact Nat.lt_irrefl _ (below next rfl)
    · exact ⟨notBehind, between.not_between (.inl (Nat.le_refl _))⟩
  · refine .inr ⟨fun behind => ?_, fun between => outside (between.mono (by omega) (by omega))⟩
    exact outside ⟨next, by rw [behind]; rfl, Nat.le_refl _, by omega⟩

theorem eq_first_iff (isolated : Isolates w head next (layoutChain w.knows next head (d :: chain)))
    (taken : w.knows d.kind = true) (below : ∀ anchor ∈ head.anchor?, anchor < next) {block : PlacedBlock}
    (member : block ∈ w.blocks) : block.attach = head ↔ block = ⟨next, d.kind, d.fields, head⟩ := by
  refine ⟨fun atHead => ?_, fun same => same ▸ rfl⟩
  have notBetween : ∀ low high, next ≤ low → ¬block.attach.Between low high := fun low high after between =>
    Attachment.not_between_of_below below (atHead ▸ between.mono after (Nat.le_refl _))
  have inside := (isolated.apart block member).resolve_right fun outside => outside.1 atHead
  rw [layoutChain_of_taken taken] at inside
  rcases List.mem_append.mp inside with inFirst | inRest
  · exact (confined d next head block inFirst).resolve_right fun inner => notBetween _ _ (Nat.le_refl _) inner.1
  · rcases attach_of_mem_layoutChain inRest with behind | between
    · exact absurd (below next (by rw [← atHead, behind]; rfl)) (Nat.lt_irrefl _)
    · exact absurd between (notBetween _ _ (Nat.le_add_right _ _))

end Isolates

namespace Hosts

variable {w : Workspace} {next : Nat} {first : PlacedBlock} {parts : List Part}

/-- The first blocks under a name are those at the head of the part with this name. -/
theorem isHeadOf_iff (hosted : Hosts w next (first :: layoutParts w.knows (next + 1) parts))
    (fitted : Fitted next parts) (below : ∀ anchor ∈ first.attach.anchor?, anchor < next) {block : PlacedBlock}
    (member : block ∈ w.blocks) (name : String) :
    Workspace.isHeadOf next name block = true ↔ ∃ part ∈ parts, part.name = name ∧ block.attach = part.head := by
  simp only [Workspace.isHeadOf, Bool.or_eq_true, decide_eq_true_eq]
  refine ⟨fun isHead => ?_, fun ⟨part, isPart, named, atHead⟩ =>
    atHead ▸ ((fitted.belongs part isPart).head_eq_iff name).mpr named⟩
  have isAnchor : block.attach.anchor? = some next := by
    rcases isHead with head | head <;> rw [head] <;> rfl
  have inside := (hosted.apart block member).resolve_right fun outside => by
    rcases outside with behind | outside
    · rw [behind] at isHead
      simp at isHead
    · exact outside ⟨next, isAnchor, Nat.le_refl _, by simp⟩
  rcases List.mem_cons.mp inside with rfl | inner
  · exact absurd (below next isAnchor) (Nat.lt_irrefl _)
  · rcases attach_of_mem_layoutParts inner with ⟨part, isPart, atHead⟩ | ⟨anchor, isSame, above, -⟩
    · exact ⟨part, isPart, ((fitted.belongs part isPart).head_eq_iff name).mp (atHead ▸ isHead), atHead⟩
    · cases Option.mem_unique isSame isAnchor
      omega

/-- The chain in a part of a block is apart from all else in the workspace. -/
theorem part (hosted : Hosts w next (first :: layoutParts w.knows (next + 1) parts)) (fitted : Fitted next parts)
    (below : ∀ anchor ∈ first.attach.anchor?, anchor < next) {before after : List Part} {part : Part}
    (split : parts = before ++ part :: after) {start : Nat}
    (starts : next + 1 + (layoutParts w.knows (next + 1) before).length = start) :
    Isolates w part.head start (layoutChain w.knows start part.head part.chain) := by
  obtain ⟨within, apart⟩ := hosted
  have belongs := fitted.belongs part (by simp [split])
  have region : layoutParts w.knows (next + 1) parts = layoutParts w.knows (next + 1) before ++
      (layoutChain w.knows start part.head part.chain ++
        layoutParts w.knows (start + (layoutChain w.knows start part.head part.chain).length) after) := by
    rw [split, layoutParts_append, starts, layoutParts]
  have inner : (layoutChain w.knows start part.head part.chain).Sublist (layoutParts w.knows (next + 1) parts) := by
    rw [region]
    exact (List.sublist_append_left _ _).trans (List.sublist_append_right _ _)
  have long := congrArg List.length region
  rw [List.length_append, List.length_append] at long
  refine ⟨(inner.cons _).trans within, fun block isBlock => ?_⟩
  -- A block is the one that holds the part, or in some part of it, or stands behind it, or is foreign to it.
  rcases apart block isBlock with inside | behind | outside
  · rcases List.mem_cons.mp inside with rfl | inParts
    · refine .inr ⟨fun same => ?_, fun between => ?_⟩
      · exact Nat.lt_irrefl _ (below next (same ▸ belongs.anchor))
      · exact Attachment.not_between_of_below below (between.mono (by omega) (Nat.le_refl _))
    · exact mem_layoutParts_cases (Nat.lt_succ_self next) starts
        (fun other isPart => (fitted.belongs other (split ▸ isPart)).anchor) (fitted.heads split) (split ▸ inParts)
  · refine .inr ⟨fun same => belongs.head_ne_next next (same.symm.trans behind), ?_⟩
    rintro ⟨anchor, isAnchor, above, -⟩
    rw [behind] at isAnchor
    cases isAnchor
    omega
  · rw [List.length_cons] at outside
    refine .inr ⟨fun same => outside ⟨next, same ▸ belongs.anchor, Nat.le_refl _, by omega⟩, fun between => ?_⟩
    exact outside (between.mono (by omega) (by omega))

end Hosts

/-- A descriptor can be read back wherever it is laid out. -/
def Readable (d : Descriptor) : Prop :=
  ∀ (w : Workspace) (next : Nat) (attach : Attachment), w.knows d.kind = true →
    (∀ anchor ∈ attach.anchor?, anchor < next) → Hosts w next (layout w.knows next attach d) →
    Shows w ⟨next, d.kind, d.fields, attach⟩ d

theorem exists_linked_of_readable {w : Workspace} {chain : List Descriptor} (each : ∀ d ∈ chain, Readable d)
    {next : Nat} {head : Attachment} (below : ∀ anchor ∈ head.anchor?, anchor < next)
    (isolated : Isolates w head next (layoutChain w.knows next head chain)) :
    ∃ blocks, w.Linked head blocks ∧ List.Forall₂ (Shows w) blocks (chain.filter (w.knows ·.kind)) := by
  induction chain generalizing next head with
  | nil =>
    refine ⟨[], .nil fun block member => ?_, .nil⟩
    exact ((isolated.apart block member).resolve_left List.not_mem_nil).1
  | cons d chain ih =>
    obtain ⟨first, others⟩ := List.forall_mem_cons.mp each
    cases taken : w.knows d.kind with
    | false =>
      -- A block that is refused leaves its place to the next of the chain.
      rw [layoutChain_of_refused taken] at isolated
      rw [List.filter_cons_of_neg (by simp [taken])]
      exact ih others below isolated
    | true =>
      have behind : ∀ anchor ∈ (Attachment.next next).anchor?,
          anchor < next + (layout w.knows next head d).length := by
        rintro _ ⟨⟩
        exact Nat.lt_add_of_pos_right (length_layout_pos taken next head)
      obtain ⟨blocks, linked, shows⟩ := ih others behind (isolated.rest taken below)
      have hosted := isolated.first taken
      rw [List.filter_cons_of_pos (by simpa using taken)]
      exact ⟨_ :: blocks, .cons (hosted.within.subset (mem_layout_self taken next head))
        (fun block member => isolated.eq_first_iff taken below member) linked,
        .cons (first w next head taken below hosted) shows⟩

/-- What can be read back in the places of a block is read back under their names. -/
theorem Hosts.shows {w : Workspace} {next : Nat} {first : PlacedBlock} {parts : List Part}
    (hosted : Hosts w next (first :: layoutParts w.knows (next + 1) parts)) (fitted : Fitted next parts)
    (below : ∀ anchor ∈ first.attach.anchor?, anchor < next)
    (each : ∀ part ∈ parts, ∀ d ∈ part.chain, Readable d) (name : String) :
    List.Forall₂ (Shows w) (w.children next name) ((Part.under parts name).filter (w.knows ·.kind)) := by
  have heads := fun {block} (member : block ∈ w.blocks) => hosted.isHeadOf_iff fitted below member
  by_cases named : ∃ part ∈ parts, part.name = name
  · obtain ⟨part, isPart, rfl⟩ := named
    obtain ⟨before, after, split⟩ := List.append_of_mem isPart
    have isolated := hosted.part fitted below split rfl
    have anchored : ∀ anchor ∈ part.head.anchor?,
        anchor < next + 1 + (layoutParts w.knows (next + 1) before).length := by
      intro anchor isAnchor
      rw [(fitted.belongs part isPart).anchor, Option.mem_some_iff] at isAnchor
      omega
    obtain ⟨blocks, linked, shows⟩ := exists_linked_of_readable (each part isPart) anchored isolated
    have short : blocks.length ≤ w.size :=
      calc blocks.length
        _ = (part.chain.filter (w.knows ·.kind)).length := shows.length_eq
        _ ≤ _ := length_filter_le_layoutChain _ _ _
        _ ≤ w.size := isolated.within.length_le
    have only : ∀ block ∈ w.blocks, Workspace.isHeadOf next part.name block = true ↔ block.attach = part.head := by
      intro block member
      refine (heads member part.name).trans ⟨fun ⟨other, isOther, named, atHead⟩ => ?_, fun atHead =>
        ⟨part, isPart, rfl, atHead⟩⟩
      rw [atHead, List.inj_on_of_nodup_map fitted.names isOther isPart named]
    rw [linked.children_eq short only, fitted.under_eq split]
    exact shows
  · have unnamed : ∀ part ∈ parts, part.name ≠ name := fun part isPart same => named ⟨part, isPart, same⟩
    have free : w.children next name = [] := Workspace.children_eq_nil fun block member isHead => by
      obtain ⟨part, isPart, same, -⟩ := (heads member name).mp isHead
      exact unnamed part isPart same
    rw [free, Part.under_of_unnamed unnamed]
    exact .nil

theorem readable {d : Descriptor} (distinct : d.Distinct) : Readable d := by
  induction d using Descriptor.children_induction with
  | step d inside =>
    intro w next attach taken below hosted
    rw [layout_of_taken taken] at hosted
    have each : ∀ part ∈ d.parts next, ∀ child ∈ part.chain, Readable child := by
      intro part isPart child inChain
      have isChild := Descriptor.mem_children_of_mem_parts isPart inChain
      obtain ⟨-, children⟩ := distinct
      exact inside child isChild (children child isChild)
    exact .mk rfl rfl fun name => d.inside_eq next name ▸ hosted.shows (distinct.fitted next) below each name

end RobotScript.Block
