import Mathlib.Data.List.Chain
import RobotScript.Proofs.Block.Layout

namespace RobotScript.Block

namespace Workspace

/-- One workspace comes from another by asking for blocks, one after the other, whatever the answers are. -/
inductive Grows : Workspace → Workspace → Prop
  | same {w : Workspace} : Grows w w
  | instantiate {w w' w'' : Workspace} {request : Request} {answer : Except PlaceError Nat} :
    w.instantiate request = (answer, w') → Grows w' w'' → Grows w w''

theorem Grows.trans {w w' w'' : Workspace} (first : Grows w w') (second : Grows w' w'') : Grows w w'' := by
  induction first with
  | same => exact second
  | instantiate asked _ ih => exact .instantiate asked (ih second)

/-- A step adds at most one block, behind all others. -/
theorem instantiate_grows {w w' : Workspace} {request : Request} {answer : Except PlaceError Nat}
    (asked : w.instantiate request = (answer, w')) : w'.known = w.known ∧ w.blocks <+: w'.blocks := by
  obtain ⟨error, failed⟩ | ⟨-, -, placed⟩ := w.instantiate_cases request
  · cases failed.symm.trans asked
    exact ⟨rfl, List.prefix_rfl⟩
  · cases placed.symm.trans asked
    exact ⟨rfl, List.prefix_append _ _⟩

theorem Grows.retains {w w' : Workspace} (grows : Grows w w') : w.blocks <+: w'.blocks := by
  induction grows with
  | same => exact List.prefix_rfl
  | instantiate asked _ ih => exact (instantiate_grows asked).2.trans ih

theorem Grows.known_eq {w w' : Workspace} (grows : Grows w w') : w'.known = w.known := by
  induction grows with
  | same => rfl
  | instantiate asked _ ih => exact ih.trans (instantiate_grows asked).1

theorem Reachable.grows {w w' : Workspace} (reach : w.Reachable) (grows : Grows w w') : w'.Reachable := by
  induction grows with
  | same => exact reach
  | @instantiate w w' _ request answer asked _ ih =>
    have next : (w.instantiate request).2 = w' := congrArg Prod.snd asked
    exact ih (next ▸ reach.instantiate request)

/-- A request that is turned down leaves the workspace as it is. -/
theorem instantiate_of_error {w : Workspace} {request : Request} {error : PlaceError}
    (failed : (w.instantiate request).1 = .error error) : (w.instantiate request).2 = w := by
  obtain ⟨other, outcome⟩ | ⟨-, -, outcome⟩ := w.instantiate_cases request
  · rw [outcome]
  · rw [outcome] at failed
    cases failed

end Workspace

namespace Placement

open Workspace (Grows)

mutual

theorem put_grows (p : Placement Workspace) (attach : Attachment) :
    ∀ d : Descriptor, Grows p.host (p.put attach d).2.host
  | .mk kind fields inputs statements => by
    rw [put]
    split
    · rename_i failed
      exact .instantiate failed .same
    · rename_i id host placed
      refine .instantiate placed (.trans (putInputs_grows ⟨host, p.placed + 1, p.warnings⟩ id inputs) ?_)
      exact putStatements_grows _ id statements

theorem putChain_grows (p : Placement Workspace) (head : Attachment) :
    ∀ chain : List Descriptor, Grows p.host (p.putChain head chain).host
  | [] => .same
  | block :: chain => (put_grows p head block).trans (putChain_grows _ _ chain)

theorem putInputs_grows (p : Placement Workspace) (parent : Nat) {bound : Option String} :
    ∀ inputs : Ascending Descriptor bound, Grows p.host (p.putInputs parent inputs).host
  | .nil => .same
  | .cons name _ child inputs => (put_grows p (.input parent name) child).trans (putInputs_grows _ parent inputs)

theorem putStatements_grows (p : Placement Workspace) (parent : Nat) {bound : Option String} :
    ∀ statements : Ascending (List Descriptor) bound, Grows p.host (p.putStatements parent statements).host
  | .nil => .same
  | .cons name _ chain statements =>
    (putChain_grows p (.statement parent name) chain).trans (putStatements_grows _ parent statements)

end

end Placement

namespace BlockMap

open Workspace (Grows)

theorem placeProgram_grows (map : BlockMap) (w : Workspace) (program : Program) :
    Grows w (map.placeProgram w program).2 := by
  unfold placeProgram
  dsimp only
  split
  · rename_i failed
    exact .instantiate failed .same
  · rename_i base host placed
    let start : Placement Workspace := { Placement.start w (map.lowerProgram program).unmapped with host }
    let lowered := map.lowerProgram program
    have setup := Placement.putChain_grows start (.statement base map.base.setupInput) lowered.setup
    exact .instantiate placed (setup.trans (Placement.putChain_grows _ _ lowered.loop))

theorem placeChain_grows (w : Workspace) (lowered : Lowered) : Grows w (placeChain w lowered).2 :=
  Placement.putChain_grows (Placement.start w lowered.unmapped) .root lowered.blocks

/-- All that a script can do: it is refused before anything is asked for, or its blocks are placed. -/
theorem placeScript_cases {σ : Type} [Host σ] (map : BlockMap) (host : σ) (text : String) :
    (∃ refusal, map.placeScript host text = (.error refusal, host)) ∨
      (∃ program report, map.placeScript host text = (.ok report, (map.placeProgram host program).2)) ∨
      ∃ nodes report, map.placeScript host text = (.ok report, (placeChain host (map.lowerAll nodes)).2) := by
  unfold placeScript
  dsimp only
  split
  · split
    · rename_i refusal _
      exact .inl ⟨refusal, rfl⟩
    · rename_i program _
      exact .inr (.inl ⟨program, _, rfl⟩)
  · split
    · rename_i refusal _
      exact .inl ⟨refusal, rfl⟩
    · rename_i nodes _
      exact .inr (.inr ⟨nodes, _, rfl⟩)

theorem placeScript_grows (map : BlockMap) (w : Workspace) (text : String) : Grows w (map.placeScript w text).2 := by
  obtain ⟨refusal, outcome⟩ | ⟨program, report, outcome⟩ | ⟨nodes, report, outcome⟩ := map.placeScript_cases w text
  · rw [outcome]
    exact .same
  · rw [outcome]
    exact placeProgram_grows map w program
  · rw [outcome]
    exact placeChain_grows w (map.lowerAll nodes)

theorem placeScript_of_error {σ : Type} [Host σ] {map : BlockMap} {host : σ} {text : String} {refusal : Script.Refusal}
    (failed : (map.placeScript host text).1 = .error refusal) : (map.placeScript host text).2 = host := by
  obtain ⟨other, outcome⟩ | ⟨program, report, outcome⟩ | ⟨nodes, report, outcome⟩ := map.placeScript_cases host text
  · rw [outcome]
  · rw [outcome] at failed
    cases failed
  · rw [outcome] at failed
    cases failed

end BlockMap

/-- What can be asked of a workspace: to place one block, or the blocks of a program, of a command or of a script. -/
inductive Call
  | block (request : Request)
  | program (map : BlockMap) (program : Program)
  | command (map : BlockMap) (token : String)
  | script (map : BlockMap) (text : String)

namespace Workspace

/-- The workspace that a call hands back, whatever it reports. -/
def after (w : Workspace) : Call → Workspace
  | .block request => (w.instantiate request).2
  | .program map program => (map.placeProgram w program).2
  | .command map token => (map.placeCommand w token).2
  | .script map text => (map.placeScript w text).2

def run (w : Workspace) (calls : List Call) : Workspace := calls.foldl after w

theorem grows_after (w : Workspace) (call : Call) : Grows w (w.after call) := by
  cases call with
  | block request => exact .instantiate rfl .same
  | program map program => exact map.placeProgram_grows w program
  | command map token => exact BlockMap.placeChain_grows w _
  | script map text => exact map.placeScript_grows w text

theorem grows_run (w : Workspace) (calls : List Call) : Grows w (w.run calls) := by
  induction calls generalizing w with
  | nil => exact .same
  | cons call calls ih => exact (w.grows_after call).trans (ih (w.after call))

/-- Following a chain from a block on, as far as it goes. Nothing bounds the number of steps here. -/
inductive Follows (w : Workspace) : Option PlacedBlock → List PlacedBlock → Prop
  | stop : Follows w none []
  | step {block : PlacedBlock} {chain : List PlacedBlock} :
    Follows w (w.blocks.find? (·.attach = .next block.id)) chain → Follows w (some block) (block :: chain)

theorem Follows.unique {w : Workspace} {first : Option PlacedBlock} {chain other : List PlacedBlock}
    (follows : w.Follows first chain) (again : w.Follows first other) : chain = other := by
  induction follows generalizing other with
  | stop =>
    cases again
    rfl
  | step _ ih =>
    cases again with
    | step again => rw [ih again]

theorem Follows.head?_eq {w : Workspace} {first : Option PlacedBlock} {chain : List PlacedBlock}
    (follows : w.Follows first chain) : chain.head? = first := by
  cases follows <;> rfl

namespace Ordered

variable {w : Workspace}

/-- What stands behind a block has a greater number. -/
theorem id_lt_next (ordered : w.Ordered) {block next : PlacedBlock}
    (found : w.blocks.find? (·.attach = .next block.id) = some next) : next ∈ w.blocks ∧ block.id < next.id := by
  have member := List.mem_of_find?_eq_some found
  have behind : next.attach = .next block.id := by simpa using List.find?_some found
  exact ⟨member, ordered.earlier next member block.id (by rw [behind]; rfl)⟩

/-- A block can be followed in as many steps as there are blocks from its own number on. -/
theorem follows_chainFrom (ordered : w.Ordered) {count : Nat} {block : PlacedBlock} (member : block ∈ w.blocks)
    (enough : w.size ≤ block.id + count) : w.Follows (some block) (w.chainFrom count block) := by
  induction count generalizing block with
  | zero =>
    have inside := ordered.id_lt member
    omega
  | succ count ih =>
    rw [chainFrom]
    refine .step ?_
    cases found : w.blocks.find? (·.attach = .next block.id) with
    | none => exact .stop
    | some next =>
      obtain ⟨isBlock, later⟩ := ordered.id_lt_next found
      exact ih isBlock (by omega)

theorem follows_children (ordered : w.Ordered) (parent : Nat) (name : String) :
    w.Follows (w.blocks.find? (isHeadOf parent name)) (w.children parent name) := by
  rw [children]
  split
  · rename_i head found
    rw [found]
    exact ordered.follows_chainFrom (List.mem_of_find?_eq_some found) (Nat.le_add_left _ _)
  · rename_i found
    rw [found]
    exact .stop

theorem increasing (ordered : w.Ordered) {first : Option PlacedBlock} {chain : List PlacedBlock}
    (follows : w.Follows first chain) : (chain.map (·.id)).Pairwise (· < ·) := by
  refine List.isChain_iff_pairwise.mp (List.isChain_map _ |>.mpr ?_)
  induction follows with
  | stop => exact .nil
  | step follows ih =>
    refine List.isChain_cons.mpr ⟨fun next isNext => ?_, ih⟩
    exact (ordered.id_lt_next (follows.head?_eq.symm.trans isNext)).2

end Ordered

/-- However a workspace that was empty at first is used, its blocks stay as they are, each hangs on an earlier one,
and every chain can be followed to its end, with the numbers growing. A call that fails hands the workspace back as
it was. -/
theorem ordered_of_run {known : Option (List String)} {calls : List Call} {w : Workspace}
    (used : run ⟨known, []⟩ calls = w) :
    w.known = known ∧ w.Ordered ∧ (∀ more, w.blocks <+: (w.run more).blocks) ∧
      (∀ request error, (w.instantiate request).1 = .error error → (w.instantiate request).2 = w) ∧
      (∀ (map : BlockMap) text refusal, (map.placeScript w text).1 = .error refusal →
        (map.placeScript w text).2 = w) ∧
      ∀ parent name, ((w.children parent name).map (·.id)).Pairwise (· < ·) ∧
        ∀ chain, w.Follows (w.blocks.find? (isHeadOf parent name)) chain ↔ chain = w.children parent name := by
  have grows : Grows ⟨known, []⟩ w := used ▸ grows_run _ calls
  have ordered := ((Reachable.empty known).grows grows).ordered
  refine ⟨grows.known_eq, ordered, fun more => (grows_run w more).retains, fun _ _ => instantiate_of_error,
    fun _ _ _ => BlockMap.placeScript_of_error, fun parent name => ?_⟩
  have follows := ordered.follows_children parent name
  exact ⟨ordered.increasing follows, fun chain => ⟨fun other => other.unique follows, fun same => same ▸ follows⟩⟩

/-- What is asked for in turn. There is no waiting among the known kinds, and no block 9. -/
def blinks : List Call :=
  [.command .builtin "ERN", .program .builtin ⟨[], [.command "ERN", .delay 5, .command "ERF"], []⟩,
    .block ⟨"emmi_eyes_digital", .nil, .next 9⟩]

def blinking : Workspace := run ⟨some ["base_setup_loop", "emmi_eyes_digital"], []⟩ blinks

theorem ordered_of_run_blinking :
    blinking.Ordered ∧ (∀ more, blinking.blocks <+: (blinking.run more).blocks) ∧
      (blinking.instantiate ⟨"custom_wait", .nil, .root⟩).2 = blinking ∧
      (BlockMap.builtin.placeScript blinking "|I|").2 = blinking ∧
      (blinking.children 1 "SETUP").map (·.id) = [2, 3] ∧ [2, 3].Pairwise (· < ·) ∧
      blinking.Follows (blinking.blocks.find? (isHeadOf 1 "SETUP")) (blinking.children 1 "SETUP") := by
  have used : run ⟨some ["base_setup_loop", "emmi_eyes_digital"], []⟩ blinks = blinking := rfl
  obtain ⟨-, ordered, kept, failed, cutShort, chains⟩ := ordered_of_run used
  have refused : (blinking.instantiate ⟨"custom_wait", .nil, .root⟩).1 = .error (.unknownKind "custom_wait") := rfl
  obtain ⟨refusal, endsEarly⟩ :
      ∃ refusal, (BlockMap.builtin.placeScript blinking "|I|").1 = .error refusal := ⟨_, rfl⟩
  have ids : (blinking.children 1 "SETUP").map (·.id) = [2, 3] := rfl
  obtain ⟨increasing, followed⟩ := chains 1 "SETUP"
  exact ⟨ordered, kept, failed _ _ refused, cutShort _ _ _ endsEarly, ids, ids ▸ increasing, (followed _).mpr rfl⟩

end Workspace

end RobotScript.Block
