import RobotScript.Proofs.Number.ReadBack
import RobotScript.Proofs.Program.Nesting
import RobotScript.Proofs.Script.Sections

namespace RobotScript

namespace Condition

/-- The condition with each operand replaced. -/
def map (f : Value → Value) (c : Condition) : Condition := ⟨c.op, f c.left, f c.right⟩

end Condition

namespace Node

mutual

/-- The instruction that is read where this one is printed, given the value that is read for a value.
A word may turn out to be a delay or the end of a loop. -/
def reread (f : Value → Value) : Node → Node
  | .command token => Script.ofWord token.toList
  | .delay ms => .delay ms
  | .assign target op value => .assign target op (f value)
  | .branch condition yes no => .branch (condition.map f) (rereadAll f yes) (rereadAll f no)
  | .repeatWhile condition body => .repeatWhile (condition.map f) (rereadAll f body)
  | .count start stop step body => .count start stop step (rereadAll f body)
  | .select value cases default => .select (f value) (rereadCases f cases) (rereadAll f default)
  | .leave => .leave

def rereadAll (f : Value → Value) : List Node → List Node
  | [] => []
  | node :: nodes => reread f node :: rereadAll f nodes

def rereadCases (f : Value → Value) : List (Value × List Node) → List (Value × List Node)
  | [] => []
  | (value, nodes) :: cases => (f value, rereadAll f nodes) :: rereadCases f cases

end

theorem rereadAll_eq_map (f : Value → Value) (nodes : List Node) :
    rereadAll f nodes = nodes.map (reread f) := by
  induction nodes with
  | nil => rfl
  | cons node nodes ih => rw [rereadAll, ih, List.map_cons]

theorem rereadCases_eq_map (f : Value → Value) (cases : List (Value × List Node)) :
    rereadCases f cases = cases.map fun case => (f case.1, rereadAll f case.2) := by
  induction cases with
  | nil => rfl
  | cons case cases ih => rw [rereadCases, ih, List.map_cons]

/-- A word has neither values nor bodies, whatever it turns out to be. -/
theorem ofWord_parts (t : List Char) : (Script.ofWord t).values = [] ∧ (Script.ofWord t).bodies = [] := by
  unfold Script.ofWord
  split
  · exact ⟨rfl, rfl⟩
  · split <;> exact ⟨rfl, rfl⟩

theorem values_reread (f : Value → Value) (node : Node) : (node.reread f).values = node.values.map f := by
  cases node with
  | command token => exact (ofWord_parts token.toList).1
  | select value cases default =>
    simp only [reread, values, rereadCases_eq_map, List.map_cons, List.map_map]
    rfl
  | _ => rfl

theorem bodies_reread (f : Value → Value) (node : Node) :
    (node.reread f).bodies = node.bodies.map (rereadAll f) := by
  cases node with
  | command token => exact (ofWord_parts token.toList).2
  | select value cases default =>
    simp only [reread, bodies, rereadCases_eq_map, List.map_append, List.map_map]
    rfl
  | _ => rfl

/-- What an instruction needs to be read at all, its values and bodies apart. -/
def Spellable : Node → Prop
  | .command token => token.toList ≠ [] ∧ ∀ c ∈ token.toList, isCommandChar c = true
  | .count _ _ step _ => step ≠ 0
  | _ => True

end Node

/-- What stands in a reread list stood at the same place before. -/
theorem within_rereadAll {f : Value → Value} {nodes : List Node} {k : Nat} {node : Node}
    (within : Within (Node.rereadAll f nodes) k node) : ∃ origin, Within nodes k origin ∧ node = origin.reread f := by
  induction k generalizing nodes with
  | zero =>
    cases within with
    | here member =>
      rw [Node.rereadAll_eq_map] at member
      obtain ⟨origin, inside, rfl⟩ := List.mem_map.mp member
      exact ⟨origin, .here inside, rfl⟩
  | succ k ih =>
    cases within with
    | inside member isBody within =>
      rw [Node.rereadAll_eq_map] at member
      obtain ⟨outer, inside, rfl⟩ := List.mem_map.mp member
      rw [Node.bodies_reread] at isBody
      obtain ⟨body, ofOuter, rfl⟩ := List.mem_map.mp isBody
      obtain ⟨origin, stands, rfl⟩ := ih within
      exact ⟨origin, .inside inside ofOuter stands, rfl⟩

def Program.reread (f : Value → Value) (p : Program) : Program :=
  ⟨p.initFlags, Node.rereadAll f p.setup, Node.rereadAll f p.loop⟩

namespace Script

section

variable {f : Value → Value} {spellsBody : List Char → List Node → Prop}

theorem spellsCases_reread {cases : List (Value × List Node)}
    (spelled : ∀ v ∈ cases.map Prod.fst, SpellsValue v.chars (f v))
    (bodies : ∀ nodes ∈ cases.map Prod.snd, spellsBody (body (Node.charsAll nodes)) (Node.rereadAll f nodes)) :
    SpellsCases spellsBody (Node.charsCases cases) (Node.rereadCases f cases) := by
  induction cases with
  | nil => exact .nil
  | cons first cases ih =>
    obtain ⟨spelledValue, spelled⟩ := List.forall_mem_cons.mp spelled
    obtain ⟨spelledBody, bodies⟩ := List.forall_mem_cons.mp bodies
    exact .cons spelledValue spelledBody (ih spelled bodies)

theorem spellsNode_reread {node : Node} (spellable : node.Spellable)
    (spelled : ∀ v ∈ node.values, SpellsValue v.chars (f v))
    (bodies : ∀ nodes ∈ node.bodies, spellsBody (body (Node.charsAll nodes)) (Node.rereadAll f nodes)) :
    SpellsNode spellsBody node.chars (node.reread f) := by
  cases node with
  | command token => exact .word spellable.1 spellable.2
  | delay ms =>
    have isDelay : ofWord ('D' :: digits ms.toNat) = .delay ms := by
      simp [ofWord, delay?_eq_some_iff.mpr rfl]
    rw [Node.chars, Node.reread, ← isDelay]
    refine .word (by simp) (List.forall_mem_cons.mpr ⟨by decide, fun c member => ?_⟩)
    simp [isCommandChar, isDigit_of_mem_digits member]
  | leave => exact .word (List.cons_ne_nil _ _) (List.forall_mem_singleton.mpr rfl)
  | assign target op value => exact .assign (.mk target op (spelled value (by simp [Node.values])))
  | branch condition yes no =>
    have atCondition : SpellsCondition condition.chars (condition.map f) :=
      .mk condition.op (spelled _ (by simp [Node.values])) (spelled _ (by simp [Node.values]))
    exact .branch atCondition (bodies yes (by simp [Node.bodies])) (bodies no (by simp [Node.bodies]))
  | repeatWhile condition nodes =>
    have atCondition : SpellsCondition condition.chars (condition.map f) :=
      .mk condition.op (spelled _ (by simp [Node.values])) (spelled _ (by simp [Node.values]))
    exact .repeatWhile atCondition (bodies nodes (by simp [Node.bodies]))
  | count start stop step nodes =>
    exact .count (spellsInt_intDigits start) (spellsInt_intDigits stop) (spellsInt_intDigits step) spellable
      (bodies nodes (by simp [Node.bodies]))
  | select value cases default =>
    obtain ⟨spelledValue, spelledCases⟩ := List.forall_mem_cons.mp spelled
    obtain ⟨ofCases, ofDefault⟩ := List.forall_mem_append.mp bodies
    exact .select spelledValue (spellsCases_reread spelledCases ofCases) (ofDefault default (by simp))

end

theorem forall₂_reread {f : Value → Value} {depth : Nat} {nodes : List Node}
    (spelled : ∀ node ∈ nodes, Spells depth node.chars (node.reread f)) :
    List.Forall₂ (Spells depth) (Node.charsAll nodes) (Node.rereadAll f nodes) := by
  rw [charsAll_eq_map, Node.rereadAll_eq_map, List.forall₂_map_left_iff, List.forall₂_map_right_iff,
    List.forall₂_same]
  exact spelled

/-- What holds at each place of a list decides how its tokens are read: the bound on the nesting is
one less in each body. -/
theorem spells_reread {f : Value → Value} {depth : Nat} {nodes : List Node}
    (spellable : ∀ k node, Within nodes k node → node.Spellable)
    (spelled : ∀ k node, Within nodes k node → ∀ v ∈ node.values, SpellsValue v.chars (f v))
    (shallow : ∀ k node, Within nodes k node → node.bodies ≠ [] → k < depth) :
    ∀ node ∈ nodes, Spells depth node.chars (node.reread f) := by
  induction depth generalizing nodes with
  | zero =>
    intro node member
    have here : Within nodes 0 node := .here member
    refine spellsNode_reread (spellable 0 node here) (spelled 0 node here) fun body isBody => ?_
    exact absurd (shallow 0 node here (List.ne_nil_of_mem isBody)) (Nat.not_lt_zero 0)
  | succ depth ih =>
    intro node member
    have here : Within nodes 0 node := .here member
    refine spellsNode_reread (spellable 0 node here) (spelled 0 node here) fun body isBody => ?_
    refine .mk (forall₂_reread (ih ?_ ?_ ?_)) <;> intro k inner within
    · exact spellable (k + 1) inner (.inside member isBody within)
    · exact spelled (k + 1) inner (.inside member isBody within)
    · intro has
      have := shallow (k + 1) inner (.inside member isBody within) has
      omega

theorem spellsProgram_reread {f : Value → Value} {p : Program} (valid : ∀ flag ∈ p.initFlags, flag.Valid)
    (spellable : ∀ k node, Within p.nodes k node → node.Spellable)
    (spelled : ∀ k node, Within p.nodes k node → ∀ v ∈ node.values, SpellsValue v.chars (f v))
    (shallow : ∀ k node, Within p.nodes k node → node.bodies ≠ [] → k < maxDepth) :
    SpellsProgram p.chars (p.reread f) := by
  obtain ⟨ofSetup, ofLoop⟩ := List.forall_mem_append.mp (spells_reread spellable spelled shallow)
  rw [Program.chars_eq]
  exact .mk valid (forall₂_reread ofSetup) (forall₂_reread ofLoop)

end Script

section

variable {f : Value → Value} (same : ∀ v, (f v).chars = v.chars)
include same

theorem Condition.chars_map (c : Condition) : (c.map f).chars = c.chars := by
  simp only [Condition.chars, Condition.map, same]

theorem Node.chars_reread (node : Node) : (node.reread f).chars = node.chars := by
  induction node using Node.bodies_induction with
  | step node ih =>
    have inBody (nodes : List Node) (isBody : nodes ∈ node.bodies) :
        charsAll (rereadAll f nodes) = charsAll nodes := by
      rw [rereadAll_eq_map, Script.charsAll_eq_map, Script.charsAll_eq_map, List.map_map]
      exact List.map_congr_left (ih nodes isBody)
    cases node with
    | command token => exact Script.chars_ofWord token.toList
    | delay ms => rfl
    | leave => rfl
    | assign target op value => simp only [reread, chars, same]
    | branch condition yes no =>
      simp only [reread, chars, Condition.chars_map same, inBody yes (by simp [bodies]),
        inBody no (by simp [bodies])]
    | repeatWhile condition nodes =>
      simp only [reread, chars, Condition.chars_map same, inBody nodes (by simp [bodies])]
    | count start stop step nodes =>
      simp only [reread, chars, inBody nodes (by simp [bodies])]
    | select value cases default =>
      have inCases {cases : List (Value × List Node)}
          (inBody : ∀ nodes ∈ cases.map Prod.snd, charsAll (rereadAll f nodes) = charsAll nodes) :
          charsCases (rereadCases f cases) = charsCases cases := by
        induction cases with
        | nil => rfl
        | cons first cases ih =>
          obtain ⟨ofFirst, ofCases⟩ := List.forall_mem_cons.mp inBody
          simp only [rereadCases, charsCases, same, ofFirst, ih ofCases]
      simp only [reread, chars, same, inBody default (by simp [bodies])]
      rw [inCases fun nodes member => inBody nodes (by simp [bodies, member])]

theorem Program.chars_reread (p : Program) : (p.reread f).chars = p.chars := by
  have inList (nodes : List Node) : Node.charsAll (Node.rereadAll f nodes) = Node.charsAll nodes := by
    rw [Node.rereadAll_eq_map, Script.charsAll_eq_map, Script.charsAll_eq_map, List.map_map]
    exact List.map_congr_left fun node _ => Node.chars_reread same node
  simp only [Program.chars_eq, Program.reread, inList]

end

theorem isNumeric_plain (d : Decimal) : isNumeric d.plain = true := by
  obtain ⟨whole, fraction, nonempty, digit, shape, -⟩ := d.exists_shows
  obtain ⟨inWhole, inFraction⟩ := List.forall_mem_append.mp digit
  have run : isDigitRun whole = true := isDigitRun_iff.mpr ⟨nonempty, inWhole⟩
  have unsigned : Unsigned (whole ++ Decimal.pointed fraction) := by
    cases fraction with
    | nil =>
      rw [Decimal.pointed, List.append_nil]
      exact .whole run
    | cons c fraction => exact .point run (isDigitRun_iff.mpr ⟨by simp, inFraction⟩)
  refine isNumeric_iff.mpr ⟨_, unsigned, ?_⟩
  rw [shape]
  split
  · exact .inr rfl
  · exact .inl rfl

namespace Value

/-- What is printed for a value reads as a value, but for the floats that are no finite number. -/
theorem verbatim_chars {v : Value} (finite : ∀ x, v = .float x → x.isFinite = true) : Verbatim v.chars := by
  cases v with
  | integer n => exact .number (isNumeric_intDigits n.toInt)
  | float x =>
    cases x with
    | finite x => exact .number (isNumeric_plain (x.shortest .up))
    | nan => cases finite _ rfl
    | infinite negative => cases finite _ rfl
  | bool b => cases b <;> exact .number (by decide)
  | symbol name => exact .symbol name
  | text s => exact verbatim_textLiteral s.toList

/-- The value that is read where a value is printed. -/
def reread (v : Value) : Value :=
  match Script.readValue v.chars with
  | .ok (w, []) => w
  | _ => v

theorem reread_eq {v w : Value} (spelled : Script.SpellsValue v.chars w) : v.reread = w := by
  have run := Script.readValue_reads.complete spelled (Text.stops_nil _)
  rw [List.append_nil] at run
  simp only [reread, run]

theorem spellsValue_reread {v : Value} (finite : ∀ x, v = .float x → x.isFinite = true) :
    Script.SpellsValue v.chars v.reread := by
  obtain ⟨w, spelled⟩ := Script.exists_spellsValue (verbatim_chars finite)
  rw [reread_eq spelled]
  exact spelled

theorem chars_reread (v : Value) : v.reread.chars = v.chars := by
  unfold reread
  split
  · rename_i w run
    obtain ⟨t, spelled, split⟩ := Script.readValue_reads.sound run
    rw [spelled.chars_eq, split, List.append_nil]
  · rfl

end Value

end RobotScript
