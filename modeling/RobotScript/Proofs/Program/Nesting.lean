import RobotScript.Program.Basic

namespace RobotScript

namespace Node

/-- The bodies of an instruction, in the order of the script. -/
def bodies : Node → List (List Node)
  | .branch _ yes no => [yes, no]
  | .repeatWhile _ body => [body]
  | .count _ _ _ body => [body]
  | .select _ cases default => cases.map Prod.snd ++ [default]
  | _ => []

/-- The values that an instruction itself is written with; those in its bodies are not among them. -/
def values : Node → List Value
  | .assign _ _ value => [value]
  | .branch condition _ _ => [condition.left, condition.right]
  | .repeatWhile condition _ => [condition.left, condition.right]
  | .select value cases _ => value :: cases.map Prod.fst
  | _ => []

/-- Induction over the bodies, whichever kind of instruction they belong to. -/
theorem bodies_induction {motive : Node → Prop}
    (step : ∀ node : Node, (∀ body ∈ node.bodies, ∀ inner ∈ body, motive inner) → motive node) :
    ∀ node, motive node := by
  have cons {node : Node} {nodes : List Node} (first : motive node) (others : ∀ inner ∈ nodes, motive inner) :
      ∀ inner ∈ node :: nodes, motive inner :=
    List.forall_mem_cons.mpr ⟨first, others⟩
  refine @Node.rec motive (fun nodes => ∀ inner ∈ nodes, motive inner)
    (fun cases => ∀ body ∈ cases.map Prod.snd, ∀ inner ∈ body, motive inner)
    (fun case => ∀ inner ∈ case.2, motive inner) ?command ?delay ?assign ?branch ?repeatWhile ?count ?select
    ?leave (by simp) (fun _ _ => cons) (by simp) ?cases (fun _ _ inside => inside)
  case branch =>
    intro _ yes no ofYes ofNo
    exact step _ (by simpa [bodies] using ⟨ofYes, ofNo⟩)
  case repeatWhile => exact fun _ body ofBody => step _ (by simpa [bodies] using ofBody)
  case count => exact fun _ _ _ body ofBody => step _ (by simpa [bodies] using ofBody)
  case select =>
    intro _ cases default ofCases ofDefault
    refine step _ fun body member => ?_
    rcases List.mem_append.mp member with member | member
    · exact ofCases body member
    · cases List.mem_singleton.mp member
      exact ofDefault
  case cases => exact fun _ _ first others => List.forall_mem_cons.mpr ⟨first, others⟩
  all_goals intros; exact step _ (by simp [bodies])

end Node

/-- An instruction stands somewhere in a list, enclosed in a number of bodies. -/
inductive Within : List Node → Nat → Node → Prop
  | here {nodes : List Node} {node : Node} : node ∈ nodes → Within nodes 0 node
  | inside {nodes body : List Node} {outer node : Node} {k : Nat} : outer ∈ nodes → body ∈ outer.bodies →
      Within body k node → Within nodes (k + 1) node

theorem not_within_nil {k : Nat} {node : Node} : ¬Within [] k node := by
  intro within
  cases within with
  | here member => exact List.not_mem_nil member
  | inside member => exact List.not_mem_nil member

theorem Within.mono {nodes more : List Node} {k : Nat} {node : Node} (within : Within nodes k node)
    (subset : nodes ⊆ more) : Within more k node := by
  cases within with
  | here member => exact .here (subset member)
  | inside member isBody within => exact .inside (subset member) isBody within

theorem within_append {nodes more : List Node} {k : Nat} {node : Node} :
    Within (nodes ++ more) k node ↔ Within nodes k node ∨ Within more k node := by
  constructor
  · intro within
    cases within with
    | here member => exact (List.mem_append.mp member).imp .here .here
    | inside member isBody within =>
      exact (List.mem_append.mp member).imp (.inside · isBody within) (.inside · isBody within)
  · rintro (within | within)
    · exact within.mono (List.subset_append_left nodes more)
    · exact within.mono (List.subset_append_right nodes more)

/-- A property holds of all instructions in a list, at any depth. -/
def Throughout (P : Node → Prop) (nodes : List Node) : Prop := ∀ k node, Within nodes k node → P node

theorem throughout_nil {P : Node → Prop} : Throughout P [] := fun _ _ within => absurd within not_within_nil

theorem throughout_iff {P : Node → Prop} {nodes : List Node} :
    Throughout P nodes ↔ ∀ node ∈ nodes, P node ∧ ∀ body ∈ node.bodies, Throughout P body := by
  constructor
  · exact fun all node member => ⟨all 0 node (.here member), fun body isBody k inner within =>
      all (k + 1) inner (.inside member isBody within)⟩
  · intro each k node within
    cases within with
    | here member => exact (each node member).1
    | inside member isBody within => exact (each _ member).2 _ isBody _ node within

theorem throughout_cons {P : Node → Prop} {node : Node} {nodes : List Node} :
    Throughout P (node :: nodes) ↔ (P node ∧ ∀ body ∈ node.bodies, Throughout P body) ∧ Throughout P nodes := by
  rw [throughout_iff, List.forall_mem_cons, ← throughout_iff]

theorem throughout_append {P : Node → Prop} {nodes more : List Node} :
    Throughout P (nodes ++ more) ↔ Throughout P nodes ∧ Throughout P more := by
  simp only [Throughout, within_append, or_imp, forall_and]

/-- All instructions at the top of a program. -/
def Program.nodes (p : Program) : List Node := p.setup ++ p.loop

end RobotScript
