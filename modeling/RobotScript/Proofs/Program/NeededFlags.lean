import Mathlib.Data.List.Basic
import RobotScript.Program.Flags
import RobotScript.Proofs.Program.Nesting

namespace RobotScript

theorem commandFlag?_mem_enumerated {token : List Char} {flag : InitFlag} (driven : commandFlag? token = some flag) :
    flag ∈ InitFlag.enumerated := by
  unfold commandFlag? at driven
  split at driven
  case h_4 => cases driven
  all_goals
    split at driven
    · cases driven
      decide
    · cases driven

theorem InitFlag.ofSensor_mem_enumerated (source : Sensor) : InitFlag.ofSensor source ∈ enumerated := by
  cases source <;> decide

theorem Value.mem_flags_iff {v : Value} {flag : InitFlag} :
    flag ∈ v.flags ↔ ∃ source, v = .symbol (.sensor source) ∧ flag = .ofSensor source := by
  cases v with
  | symbol name => cases name <;> simp [flags, sensor?]
  | _ => simp [flags, sensor?]

namespace Node

/-- An instruction by itself, without those in its bodies, needs a part of the robot: it is a command that drives
the part, or it is written with a value that the part reads. -/
inductive Needs : Node → InitFlag → Prop
  | command {token : String} {flag : InitFlag} : commandFlag? token.toList = some flag → Needs (.command token) flag
  | sensor {node : Node} {source : Sensor} : .symbol (.sensor source) ∈ node.values → Needs node (.ofSensor source)

theorem Needs.mem_enumerated {node : Node} {flag : InitFlag} (needs : node.Needs flag) :
    flag ∈ InitFlag.enumerated := by
  cases needs with
  | command driven => exact commandFlag?_mem_enumerated driven
  | sensor _ => exact InitFlag.ofSensor_mem_enumerated _

theorem needs_iff {node : Node} {flag : InitFlag} :
    node.Needs flag ↔ (∃ token, node = .command token ∧ commandFlag? token.toList = some flag) ∨
      ∃ v ∈ node.values, flag ∈ v.flags := by
  constructor
  · rintro (driven | read)
    · exact .inl ⟨_, rfl, driven⟩
    · exact .inr ⟨_, read, Value.mem_flags_iff.mpr ⟨_, rfl, rfl⟩⟩
  · rintro (⟨token, rfl, driven⟩ | ⟨v, member, inValue⟩)
    · exact .command driven
    · obtain ⟨source, rfl, rfl⟩ := Value.mem_flags_iff.mp inValue
      exact .sensor member

theorem mem_flagsAll {nodes : List Node} {flag : InitFlag} :
    flag ∈ flagsAll nodes ↔ ∃ node ∈ nodes, flag ∈ node.flags := by
  induction nodes with
  | nil => simp [flagsAll]
  | cons node nodes ih => simp [flagsAll, ih]

theorem mem_flagsCases {cases : List (Value × List Node)} {flag : InitFlag} :
    flag ∈ flagsCases cases ↔
      (∃ v ∈ cases.map Prod.fst, flag ∈ v.flags) ∨ ∃ body ∈ cases.map Prod.snd, flag ∈ flagsAll body := by
  induction cases with
  | nil => simp [flagsCases]
  | cons case cases ih =>
    simp only [flagsCases, List.mem_append, ih, List.map_cons, List.exists_mem_cons_iff]
    exact or_or_or_comm

/-- The flags of an instruction come from itself or from one of its bodies. -/
theorem mem_flags_iff {node : Node} {flag : InitFlag} :
    flag ∈ node.flags ↔ node.Needs flag ∨ ∃ body ∈ node.bodies, flag ∈ flagsAll body := by
  rw [needs_iff]
  cases node with
  | select value cases default =>
    simp [flags, mem_flagsCases, values, bodies, or_and_right, exists_or, or_assoc]
  | _ => simp [flags, Condition.flags, values, bodies, or_assoc, eq_comm]

/-- A list needs what some instruction in it needs, at whatever depth. -/
theorem mem_flagsAll_iff_within {nodes : List Node} {flag : InitFlag} :
    flag ∈ flagsAll nodes ↔ ∃ k node, Within nodes k node ∧ node.Needs flag := by
  have ofNode (node : Node) : flag ∈ node.flags → ∃ k inner, Within [node] k inner ∧ inner.Needs flag := by
    induction node using bodies_induction with
    | step node inside =>
      intro member
      rcases mem_flags_iff.mp member with needs | ⟨body, isBody, inBody⟩
      · exact ⟨0, node, .here (List.mem_singleton_self node), needs⟩
      · obtain ⟨outer, isOuter, ofOuter⟩ := mem_flagsAll.mp inBody
        obtain ⟨k, inner, within, needs⟩ := inside body isBody outer isOuter ofOuter
        have deeper : Within body k inner := within.mono (by simpa using isOuter)
        exact ⟨k + 1, inner, .inside (List.mem_singleton_self node) isBody deeper, needs⟩
  constructor
  · intro member
    obtain ⟨node, isNode, inNode⟩ := mem_flagsAll.mp member
    obtain ⟨k, inner, within, needs⟩ := ofNode node inNode
    exact ⟨k, inner, within.mono (by simpa using isNode), needs⟩
  · rintro ⟨k, node, within, needs⟩
    induction within with
    | here member => exact mem_flagsAll.mpr ⟨_, member, mem_flags_iff.mpr (.inl needs)⟩
    | inside member isBody _ ih => exact mem_flagsAll.mpr ⟨_, member, mem_flags_iff.mpr (.inr ⟨_, isBody, ih needs⟩)⟩

/-- An instruction with nothing in its bodies. -/
def hollow : Node → Node
  | .branch condition _ _ => .branch condition [] []
  | .repeatWhile condition _ => .repeatWhile condition []
  | .count start stop step _ => .count start stop step []
  | .select value cases _ => .select value (cases.map fun case => (case.1, [])) []
  | node => node

theorem needs_hollow {node : Node} {flag : InitFlag} : node.hollow.Needs flag ↔ node.Needs flag := by
  have values : node.hollow.values = node.values := by
    cases node <;> simp [hollow, Node.values, Function.comp_def]
  have commands (token : String) : node.hollow = .command token ↔ node = .command token := by
    cases node <;> simp [hollow]
  simp only [needs_iff, values, commands]

end Node

/-- The same instructions in another order: those of the list change places, or those in a body of one of them,
and so on. -/
inductive Shuffled : List Node → List Node → Prop
  | places {nodes more : List Node} : nodes.Perm more → Shuffled nodes more
  | inside {node other : Node} {nodes body inner : List Node} {before after : List (List Node)} :
    node.hollow = other.hollow → node.bodies = before ++ body :: after → other.bodies = before ++ inner :: after →
    Shuffled body inner → Shuffled (node :: nodes) (other :: nodes)
  | trans {nodes more others : List Node} : Shuffled nodes more → Shuffled more others → Shuffled nodes others

theorem Shuffled.mem_flagsAll_iff {nodes more : List Node} (shuffled : Shuffled nodes more) (flag : InitFlag) :
    flag ∈ Node.flagsAll nodes ↔ flag ∈ Node.flagsAll more := by
  induction shuffled with
  | places perm => simp only [Node.mem_flagsAll, perm.mem_iff]
  | @inside node other nodes body inner before after same split resplit _ ih =>
    have itself : node.Needs flag ↔ other.Needs flag := by
      rw [← Node.needs_hollow, same, Node.needs_hollow]
    have inBodies : (∃ body ∈ node.bodies, flag ∈ Node.flagsAll body) ↔
        ∃ body ∈ other.bodies, flag ∈ Node.flagsAll body := by
      simp only [split, resplit, List.mem_append, List.mem_cons, or_and_right, exists_or, exists_eq_left, ih]
    simp only [Node.flagsAll, List.mem_append, Node.mem_flags_iff, itself, inBodies]
  | trans _ _ first second => exact first.trans second

theorem mem_inferFlags_iff {setup loop : List Node} {flag : InitFlag} :
    flag ∈ inferFlags setup loop ↔ flag ∈ Node.flagsAll setup ∨ flag ∈ Node.flagsAll loop := by
  simp only [inferFlags, List.mem_filter, decide_eq_true_eq, List.mem_append, and_iff_right_iff_imp]
  rintro (member | member)
  all_goals
    obtain ⟨_, _, _, needs⟩ := Node.mem_flagsAll_iff_within.mp member
    exact needs.mem_enumerated

/-- The flags depend only on which are met, not on where. -/
theorem inferFlags_congr {setup loop setup' loop' : List Node}
    (same : ∀ flag, flag ∈ Node.flagsAll setup ∨ flag ∈ Node.flagsAll loop ↔
      flag ∈ Node.flagsAll setup' ∨ flag ∈ Node.flagsAll loop') :
    inferFlags setup loop = inferFlags setup' loop' := by
  unfold inferFlags
  refine List.filter_congr fun flag _ => decide_eq_decide.mpr ?_
  rw [List.mem_append, List.mem_append, same]

/-- The flags that two phases need are those that some instruction needs, at whatever depth, each once and in wire
order. So it does not matter in which order the instructions stand, or in which phase. -/
theorem inferFlags_needed (setup loop : List Node) :
    (inferFlags setup loop).Sublist [.eyes, .buzzer, .motors, .touch, .audio, .light] ∧
      (∀ flag, flag ∈ inferFlags setup loop ↔ ∃ k node, Within (setup ++ loop) k node ∧ node.Needs flag) ∧
      (∀ setup' loop', Shuffled setup setup' → Shuffled loop loop' →
        inferFlags setup' loop' = inferFlags setup loop) ∧
      inferFlags loop setup = inferFlags setup loop := by
  refine ⟨List.filter_sublist, fun flag => ?_, fun setup' loop' ofSetup ofLoop => ?_, ?_⟩
  · simp only [mem_inferFlags_iff, Node.mem_flagsAll_iff_within, within_append, or_and_right, exists_or]
  · refine inferFlags_congr fun flag => ?_
    rw [ofSetup.mem_flagsAll_iff, ofLoop.mem_flagsAll_iff]
  · exact inferFlags_congr fun flag => or_comm

end RobotScript
